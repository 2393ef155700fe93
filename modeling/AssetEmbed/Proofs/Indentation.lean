/-
  AssetEmbed.Proofs.Indentation — indentation follows the nesting of blocks.

  Steps in and out stand beside each other in a list of operations, and a block
  is a step in, its operations and a step out.  Where no more steps lead out of
  a block than into it, and as many in all, the depth at each operation is told
  by what stands around and in front of it.  Elsewhere a step out at depth zero
  does nothing, which lifts all that follows.

  Main results:
    * `Balanced.prints`             — balanced operations are printed as nested.
    * `depth_applyAll_of_simple`    — how far a sheet is lifted.
    * `balanced_layout`             — generated files are laid out in balance.
    * `indentation_follows_nesting` — all of this, and what it says of scopes.
-/
import AssetEmbed.Source.Plan

namespace AssetEmbed.Layout

variable {unit : String} {ops others body front : List Op} {op : Op}

/-! ## §1. Balance. -/

/-- How an operation moves the depth of those beside it. -/
def Op.shift : Op → Int
  | .indent => 1
  | .dedent => -1
  | _ => 0

/-- Steps in less steps out, those inside of blocks apart. -/
def level : List Op → Int
  | [] => 0
  | op :: rest => op.shift + level rest

@[simp] theorem level_nil : level [] = 0 := rfl

@[simp] theorem level_cons (op : Op) (ops : List Op) :
    level (op :: ops) = op.shift + level ops := rfl

@[simp] theorem level_append (ops others : List Op) :
    level (ops ++ others) = level ops + level others := by
  induction ops with
  | nil => rw [List.nil_append, level_nil, Int.zero_add]
  | cons op rest ih => rw [List.cons_append, level_cons, level_cons, ih, Int.add_assoc]

/-- Whether as many steps lead out as in, and nowhere more out than in so far,
both here and in each block. -/
inductive Balanced : List Op → Prop where
  | intro {ops : List Op} (settled : level ops = 0)
      (above : ∀ front, front <+: ops → 0 ≤ level front)
      (blocks : ∀ body, .nested body ∈ ops → Balanced body) : Balanced ops

theorem Balanced.settled (h : Balanced ops) : level ops = 0 := by
  cases h
  assumption

theorem Balanced.above (h : Balanced ops) : ∀ front, front <+: ops → 0 ≤ level front := by
  cases h
  assumption

theorem Balanced.blocks (h : Balanced ops) : ∀ body, .nested body ∈ ops → Balanced body := by
  cases h
  assumption

theorem Balanced.nil : Balanced [] := by
  refine .intro rfl (fun front hfront => ?_) (fun body hbody => ?_)
  · rw [List.prefix_nil.1 hfront]
    exact Int.le_refl 0
  · cases hbody

/-- One after another, balanced operations are balanced. -/
theorem Balanced.append (h : Balanced ops) (h' : Balanced others) : Balanced (ops ++ others) := by
  refine .intro ?_ (fun front hfront => ?_) (fun body hbody => ?_)
  · rw [level_append, h.settled, h'.settled, Int.add_zero]
  · -- what is taken of both is taken of each
    rw [List.prefix_iff_eq_take.1 hfront, List.take_append, level_append]
    exact Int.add_nonneg (h.above _ (List.take_prefix _ _)) (h'.above _ (List.take_prefix _ _))
  · rcases List.mem_append.1 hbody with hbody | hbody
    · exact h.blocks body hbody
    · exact h'.blocks body hbody

theorem Balanced.cons (hshift : op.shift = 0) (hblock : ∀ body, op = .nested body → Balanced body)
    (h : Balanced ops) : Balanced (op :: ops) := by
  refine .intro ?_ (fun front hfront => ?_) (fun body hbody => ?_)
  · rw [level_cons, hshift, h.settled, Int.add_zero]
  · rcases List.prefix_cons_iff.1 hfront with rfl | ⟨rest, rfl, hrest⟩
    · exact Int.le_refl 0
    · rw [level_cons, hshift, Int.zero_add]
      exact h.above rest hrest
  · rcases List.mem_cons.1 hbody with hbody | hbody
    · exact hblock body hbody.symm
    · exact h.blocks body hbody

theorem Balanced.line {text : String} (h : Balanced ops) : Balanced (.line text :: ops) :=
  .cons rfl (fun _ heq => nomatch heq) h

theorem Balanced.blank (h : Balanced ops) : Balanced (.blank :: ops) :=
  .cons rfl (fun _ heq => nomatch heq) h

theorem Balanced.nested (hbody : Balanced body) (h : Balanced ops) :
    Balanced (.nested body :: ops) := by
  refine .cons rfl (fun inner heq => ?_) h
  cases heq
  exact hbody

/-- A step in, what is balanced, and a step out. -/
theorem Balanced.stepped (h : Balanced ops) : Balanced (.indent :: ops ++ [.dedent]) := by
  refine .intro ?_ (fun front hfront => ?_) (fun body hbody => ?_)
  · simp [Op.shift, h.settled]
  · rw [List.cons_append] at hfront
    rcases List.prefix_cons_iff.1 hfront with rfl | ⟨rest, rfl, hrest⟩
    · exact Int.le_refl 0
    · -- one step in has been made, and one step out at most is still to come
      have hlast : ∀ n, -1 ≤ level ([Op.dedent].take n) := by
        intro n
        cases n <;> simp [Op.shift]
      have hops := h.above (ops.take rest.length) (List.take_prefix _ _)
      have hrest' := hlast (rest.length - ops.length)
      rw [List.prefix_iff_eq_take.1 hrest, List.take_append, level_cons, level_append]
      simp only [Op.shift]
      omega
  · simp at hbody
    exact h.blocks body hbody

theorem Balanced.flatMap {α : Type} {xs : List α} {f : α → List Op}
    (h : ∀ x ∈ xs, Balanced (f x)) : Balanced (xs.flatMap f) := by
  induction xs with
  | nil => exact .nil
  | cons x rest ih =>
    obtain ⟨hx, hrest⟩ := List.forall_mem_cons.1 h
    exact hx.append (ih hrest)

/-- Balanced operations with a blank line between them. -/
theorem Balanced.spaced (h : Balanced ops) (h' : Balanced others) :
    Balanced (ops ++ [.blank] ++ others) :=
  (h.append (.blank .nil)).append h'

theorem balanced_lines {α : Type} (xs : List α) (f : α → String) :
    Balanced (xs.map fun x => .line (f x)) := by
  induction xs with
  | nil => exact .nil
  | cons x rest ih => exact ih.line

/-! ## §2. Printing by the nesting. -/

mutual

/-- The text of an operation at a depth. -/
def Op.printed (unit : String) (depth : Int) : Op → String
  | .line text =>
    if text = "" then "\n" else String.join (List.replicate depth.toNat unit) ++ text ++ "\n"
  | .blank => "\n"
  | .indent => ""
  | .dedent => ""
  | .nested body => printed unit (depth + 1) body

/-- The text of operations at a depth.  A block is printed one deeper, and what
comes after it at the depth of the block. -/
def printed (unit : String) (depth : Int) : List Op → String
  | [] => ""
  | op :: ops => op.printed unit depth ++ printed unit (depth + op.shift) ops

end

theorem printed_append (unit : String) (depth : Int) (ops others : List Op) :
    printed unit depth (ops ++ others)
      = printed unit depth ops ++ printed unit (depth + level ops) others := by
  induction ops generalizing depth with
  | nil => simp [printed]
  | cons op rest ih =>
    simp only [List.cons_append, printed, level_cons, ih, String.append_assoc, Int.add_assoc]

/-- Whether operations lay out the text that is printed of them, and leave the
depth as it is. -/
def Prints (unit : String) (ops : List Op) : Prop :=
  ∀ sheet : Sheet, applyAll unit ops sheet
    = ⟨sheet.text ++ printed unit sheet.depth ops, sheet.depth⟩

theorem indentation_eq (unit : String) (depth : Nat) :
    indentation unit depth = String.join (List.replicate depth unit) := by
  induction depth with
  | zero => rfl
  | succ depth ih => rw [indentation, ih, List.replicate_succ, String.join_cons]

/-- One operation, where the depth does not fall below zero. -/
theorem apply_eq_printed (hblock : ∀ body, op = .nested body → Prints unit body) (sheet : Sheet)
    (hdepth : 0 ≤ sheet.depth + op.shift) :
    op.apply unit sheet
      = ⟨sheet.text ++ op.printed unit sheet.depth, (sheet.depth + op.shift).toNat⟩ := by
  cases op with
  | line text => simp [Op.apply, Op.printed, Op.shift, lineAt, indentation_eq]
  | blank => simp [Op.apply, Op.printed, Op.shift]
  | indent => simp [Op.apply, Op.printed, Op.shift]
  | dedent =>
    simp only [Op.apply, Op.printed, Op.shift, String.append_empty, Sheet.mk.injEq, true_and]
    omega
  | nested body =>
    simp [Op.apply, Op.printed, Op.shift, hblock body rfl { sheet with depth := sheet.depth + 1 }]

/-- Operations in sequence, where the depth never falls below zero. -/
theorem applyAll_eq_printed (hblocks : ∀ body, .nested body ∈ ops → Prints unit body)
    (sheet : Sheet) (habove : ∀ front, front <+: ops → 0 ≤ sheet.depth + level front) :
    applyAll unit ops sheet
      = ⟨sheet.text ++ printed unit sheet.depth ops, (sheet.depth + level ops).toNat⟩ := by
  induction ops generalizing sheet with
  | nil => simp [applyAll, printed]
  | cons op rest ih =>
    have hstep : 0 ≤ sheet.depth + op.shift := by
      simpa using habove [op] ⟨rest, rfl⟩
    have hnext : ((sheet.depth + op.shift).toNat : Int) = sheet.depth + op.shift :=
      Int.toNat_of_nonneg hstep
    have hblock : ∀ body, op = .nested body → Prints unit body :=
      fun body heq => hblocks body (heq ▸ List.mem_cons_self)
    have hrest : ∀ body, .nested body ∈ rest → Prints unit body :=
      fun body hbody => hblocks body (List.mem_cons_of_mem _ hbody)
    rw [applyAll, apply_eq_printed hblock sheet hstep, ih hrest]
    · simp only [hnext, printed, level_cons, String.append_assoc, Int.add_assoc]
    · intro front hfront
      have := habove (op :: front) ((List.prefix_cons_inj op).2 hfront)
      simpa only [hnext, level_cons, Int.add_assoc] using this

/-- Balanced operations are printed by their nesting, from any depth on. -/
theorem Balanced.prints (h : Balanced ops) : Prints unit ops := by
  induction h with
  | intro settled above _ ih =>
    intro sheet
    rw [applyAll_eq_printed ih sheet, settled]
    · simp
    · intro front hfront
      have := above front hfront
      omega

/-! ## §3. Steps below zero. -/

mutual

/-- A block as a step in, its operations and a step out. -/
def Op.unfolded : Op → List Op
  | .nested body => .indent :: unfolded body ++ [.dedent]
  | .line text => [.line text]
  | .blank => [.blank]
  | .indent => [.indent]
  | .dedent => [.dedent]

/-- Operations one by one, without blocks. -/
def unfolded : List Op → List Op
  | [] => []
  | op :: ops => op.unfolded ++ unfolded ops

end

mutual

theorem Op.applyAll_unfolded (unit : String) (op : Op) (sheet : Sheet) :
    applyAll unit op.unfolded sheet = op.apply unit sheet := by
  match op with
  | .line _ | .blank | .indent | .dedent => simp [Op.unfolded, applyAll]
  | .nested body =>
    rw [Op.unfolded, List.cons_append, applyAll, applyAll_append, applyAll_unfolded unit body]
    rfl

theorem applyAll_unfolded (unit : String) (ops : List Op) (sheet : Sheet) :
    applyAll unit (unfolded ops) sheet = applyAll unit ops sheet := by
  match ops with
  | [] => rfl
  | op :: ops =>
    rw [unfolded, applyAll_append, Op.applyAll_unfolded unit op, applyAll_unfolded unit ops,
      applyAll]

end

/-- Whether an operation is not a block. -/
def Op.IsSimple : Op → Prop
  | .nested _ => False
  | _ => True

mutual

theorem Op.isSimple_of_mem_unfolded {o : Op} (op : Op) (h : o ∈ op.unfolded) : o.IsSimple := by
  match op with
  | .line _ | .blank | .indent | .dedent =>
    rw [Op.unfolded] at h
    rw [List.mem_singleton.1 h]
    trivial
  | .nested body =>
    simp only [Op.unfolded, List.cons_append, List.mem_cons, List.mem_append,
      List.not_mem_nil, or_false] at h
    rcases h with rfl | h | rfl
    · trivial
    · exact isSimple_of_mem_unfolded body h
    · trivial

theorem isSimple_of_mem_unfolded {o : Op} (ops : List Op) (h : o ∈ unfolded ops) :
    o.IsSimple := by
  match ops with
  | [] => cases h
  | op :: ops =>
    rcases List.mem_append.1 h with h | h
    · exact Op.isSimple_of_mem_unfolded op h
    · exact isSimple_of_mem_unfolded ops h

end

/-- The least depth that is come to, if nothing keeps it from falling below zero. -/
def lowest (depth : Int) : List Op → Int
  | [] => depth
  | op :: ops => min depth (lowest (depth + op.shift) ops)

theorem lowest_le (depth : Int) (ops : List Op) : lowest depth ops ≤ depth := by
  cases ops with
  | nil => exact Int.le_refl depth
  | cons op rest => exact Int.min_le_left _ _

theorem lowest_le_level (depth : Int) (ops : List Op) :
    lowest depth ops ≤ depth + level ops := by
  induction ops generalizing depth with
  | nil => simp [lowest]
  | cons op rest ih =>
    have hrest := ih (depth + op.shift)
    rw [lowest, level_cons, ← Int.add_assoc]
    exact Int.le_trans (Int.min_le_right _ _) hrest

theorem lowest_add (depth offset : Int) (ops : List Op) :
    lowest (depth + offset) ops = lowest depth ops + offset := by
  induction ops generalizing depth with
  | nil => rfl
  | cons op rest ih =>
    have hrest := ih (depth + op.shift)
    rw [Int.add_right_comm] at hrest
    rw [lowest, lowest, hrest]
    omega

/-- A step out at depth zero does nothing, so that a sheet is lifted by as much
as its depth would have fallen below zero. -/
theorem depth_applyAll_of_simple (hsimple : ∀ op ∈ ops, op.IsSimple) (sheet : Sheet) :
    ((applyAll unit ops sheet).depth : Int)
      = sheet.depth + level ops - min 0 (lowest sheet.depth ops) := by
  induction ops generalizing sheet with
  | nil =>
    rw [applyAll, lowest, level_nil]
    omega
  | cons op rest ih =>
    obtain ⟨hop, hrest⟩ := List.forall_mem_cons.1 hsimple
    have hnext : ((op.apply unit sheet).depth : Int) = max 0 (sheet.depth + op.shift) := by
      cases op with
      | nested body => exact hop.elim
      | line _ | blank | indent | dedent => simp only [Op.apply, Op.shift]; omega
    have hlowest := lowest_le (sheet.depth + op.shift) rest
    have hshift : -1 ≤ op.shift := by
      cases op <;> simp [Op.shift]
    rw [applyAll, ih hrest, hnext, lowest, level_cons]
    by_cases hbelow : 0 ≤ sheet.depth + op.shift
    · rw [Int.max_eq_right hbelow]
      omega
    · -- the depth was zero, and one step out has been left away
      have hzero : (sheet.depth : Int) + op.shift = -1 := by omega
      have hlifted := lowest_add (-1) 1 rest
      rw [Int.max_eq_left (by omega)]
      rw [hzero] at hlowest ⊢
      simp only [Int.reduceNeg, Int.reduceAdd] at hlifted
      omega

end AssetEmbed.Layout

namespace AssetEmbed

open Layout

/-! ## §4. Generated files. -/

theorem balanced_gap (d : Declaration) :
    Balanced (if d.startsGroup then [Op.blank] else []) := by
  split
  · exact .blank .nil
  · exact .nil

namespace CppHeader

theorem balanced_mapAccessor (heading resultType function mapName : String)
    (entries : List IndexEntry) (value : IndexEntry → String) :
    Balanced (mapAccessor heading resultType function mapName entries value) := by
  have hfill := balanced_lines entries fun e =>
    mapName ++ "[" ++ OctalLiteral.quote e.path ++ "] = " ++ value e ++ ";"
  exact .line (.line (.nested (.append (.line hfill) (.line .nil)) (.line .nil)))

/-- The body of a look-up, and what comes after it. -/
theorem balanced_lookupBody (mapName function fallback : String) {ops : List Op}
    (h : Balanced ops) : Balanced (lookupBody mapName function fallback :: ops) := by
  have hfound : Balanced [.line "return it->second;"] := .line .nil
  exact .nested (.line (.line (.line (.nested hfound (.line (.line .nil)))))) h

theorem balanced_accessors (entries : List IndexEntry) : Balanced (accessors entries) := by
  have hmap := fun heading resultType function mapName =>
    balanced_mapAccessor heading resultType function mapName entries
  refine .append (.spaced (.spaced (hmap _ _ _ _ _) (hmap _ _ _ _ _)) (hmap _ _ _ _ _)) ?_
  refine .blank (.line (.line (balanced_lookupBody _ _ _ ?_)))
  exact .line (.blank (.line (.line (balanced_lookupBody _ _ _ (.line .nil)))))

theorem balanced_declaration (ctx : RenderContext) (d : Declaration) :
    Balanced (declaration ctx d) := by
  cases d with
  | comment _ | text _ _ => exact .line .nil
  | bytes name content => exact .line (.nested (balanced_lines _ id) (.line .nil))
  | «include» file => exact .nil
  | accessors entries => exact balanced_accessors entries

theorem balanced_body (ctx : RenderContext) (ds : List Declaration) :
    Balanced (body ctx ds) := by
  cases ds with
  | nil => exact .nil
  | cons first others =>
    exact (balanced_declaration ctx first).append
      (.flatMap fun d _ => (balanced_gap d).append (balanced_declaration ctx d))

/-- Namespaces do not step, and neither does what is in front of them. -/
theorem balanced_layout (u : SourceUnit) (ctx : RenderContext) : Balanced (layout u ctx) := by
  have hmap : Balanced
      (if u.accessors?.isSome then [.line "#include <unordered_map>"] else []) := by
    split
    · exact .line .nil
    · exact .nil
  have hfiles : Balanced (if u.includes.isEmpty then []
      else .blank :: u.includes.map fun file =>
        .line ("#include " ++ OctalLiteral.quote file)) := by
    split
    · exact .nil
    · exact .blank (balanced_lines _ _)
  have hfront : Balanced [.line generatedNotice, .line u.kind.provenance, .blank,
      .line "#pragma once", .blank, .line "#include <string>"] :=
    .line (.line (.blank (.line (.blank (.line .nil)))))
  have hopen := balanced_lines ctx.scope fun name => "namespace " ++ name ++ " \x7b"
  have hclose := balanced_lines ctx.scope.reverse fun name => "\x7d // namespace " ++ name
  have hvector : Balanced [.line "#include <vector>"] := .line .nil
  have hincludes := ((hfront.append hmap).append hvector).append hfiles
  exact ((hincludes.spaced hopen).spaced (balanced_body ctx u.body)).spaced hclose

end CppHeader

namespace RustModule

theorem balanced_mapAccessor (heading function mapName valueType : String)
    (entries : List IndexEntry) (value : IndexEntry → String) :
    Balanced (mapAccessor heading function mapName valueType entries value) := by
  have hfill := balanced_lines entries fun e =>
    mapName ++ ".insert(" ++ UnicodeLiteral.quote e.path ++ ", " ++ value e ++ ");"
  exact .line (.line (.nested (.append (.line hfill) (.line .nil)) (.line .nil)))

theorem balanced_accessors (entries : List IndexEntry) : Balanced (accessors entries) := by
  have hmap := fun heading function mapName valueType =>
    balanced_mapAccessor heading function mapName valueType entries
  have hchain : Balanced [.line "get_bundled_file_mime_types()",
      .nested [.line ".get(path)", .line ".copied()",
        .line (".unwrap_or(" ++ UnicodeLiteral.quote MediaType.octetStream ++ ")")]] :=
    .line (.nested (.line (.line (.line .nil))) .nil)
  refine .append (.spaced (.spaced (hmap _ _ _ _ _) (hmap _ _ _ _ _)) (hmap _ _ _ _ _)) ?_
  refine .blank (.line (.line (.nested (.line .nil) (.line ?_))))
  exact .blank (.line (.line (.nested hchain (.line .nil))))

theorem balanced_declaration (ctx : RenderContext) (d : Declaration) :
    Balanced (declaration ctx d) := by
  cases d with
  | comment _ | text _ _ => exact .line .nil
  | bytes name content => exact .line (.nested (balanced_lines _ id) (.line .nil))
  | «include» file => exact .nil
  | accessors entries => exact balanced_accessors entries

theorem balanced_body (u : SourceUnit) (ctx : RenderContext) : Balanced (body u ctx) := by
  have hfiles := balanced_lines u.includes fun file =>
    "include!(" ++ UnicodeLiteral.quote file ++ ");"
  refine hfiles.append ?_
  split
  · exact .nil
  · next first others _ =>
    have hgap : Balanced (if u.includes.isEmpty then [] else [.blank]) := by
      split
      · exact .nil
      · exact .blank .nil
    exact (hgap.append (balanced_declaration ctx first)).append
      (.flatMap fun d _ => (balanced_gap d).append (balanced_declaration ctx d))

/-- Operations inside of nested modules. -/
def enclosed (names : List String) (inner : List Op) : List Op :=
  names.flatMap openModule ++ inner ++ names.flatMap fun _ => closeModule

/-- The outermost module is closed last. -/
theorem enclosed_cons (name : String) (names : List String) (inner : List Op) :
    enclosed (name :: names) inner
      = .line ("pub mod " ++ name ++ " \x7b") :: (.indent :: enclosed names inner ++ [.dedent])
        ++ [.line "\x7d"] := by
  have hclose : closeModule ++ names.flatMap (fun _ => closeModule)
      = names.flatMap (fun _ => closeModule) ++ closeModule := by
    induction names with
    | nil => rfl
    | cons _ rest ih => rw [List.flatMap_cons, List.append_assoc, ← ih]
  unfold enclosed
  rw [List.flatMap_cons, List.flatMap_cons, hclose]
  simp only [openModule, closeModule, List.append_assoc, List.cons_append, List.nil_append]

theorem balanced_enclosed (names : List String) {inner : List Op} (h : Balanced inner) :
    Balanced (enclosed names inner) := by
  induction names with
  | nil => simpa [enclosed] using h
  | cons name rest ih =>
    rw [enclosed_cons]
    exact .append (.line ih.stepped) (.line .nil)

/-- What stands inside of all modules. -/
def moduleBody (u : SourceUnit) (ctx : RenderContext) : List Op :=
  [.line "#![allow(dead_code, non_upper_case_globals, unused_mut)]", .blank] ++ body u ctx

theorem layout_index (u : SourceUnit) (ctx : RenderContext) (h : u.kind = .index) :
    layout u ctx = [.line generatedNotice, .line u.kind.provenance, .blank]
      ++ enclosed ctx.scope (moduleBody u ctx) := by
  simp only [layout, h, enclosed, moduleBody, List.append_assoc]

theorem balanced_moduleBody (u : SourceUnit) (ctx : RenderContext) :
    Balanced (moduleBody u ctx) :=
  .append (.line (.blank .nil)) (balanced_body u ctx)

theorem balanced_layout (u : SourceUnit) (ctx : RenderContext) : Balanced (layout u ctx) := by
  cases hkind : u.kind with
  | asset source =>
    simp only [layout, hkind]
    exact .append (.line (.line (.blank .nil))) (balanced_body u ctx)
  | index =>
    rw [layout_index u ctx hkind]
    exact .append (.line (.line (.blank .nil)))
      (balanced_enclosed ctx.scope (balanced_moduleBody u ctx))

/-- Nested modules around a text.  Each is closed at the depth of the line that
opens it, and what it holds is one deeper. -/
def modules (unit : String) (inner : Int → String) (depth : Int) : List String → String
  | [] => inner depth
  | name :: names =>
    (Op.line ("pub mod " ++ name ++ " \x7b")).printed unit depth
      ++ modules unit inner (depth + 1) names
      ++ (Op.line "\x7d").printed unit depth

theorem printed_enclosed (unit : String) (depth : Int) (names : List String) {inner : List Op}
    (h : Balanced inner) :
    printed unit depth (enclosed names inner)
      = modules unit (fun deep => printed unit deep inner) depth names := by
  induction names generalizing depth with
  | nil => simp [enclosed, modules]
  | cons name rest ih =>
    have hlevel := (balanced_enclosed rest h).settled
    rw [enclosed_cons, printed_append, modules, ← ih, List.cons_append]
    -- the step out undoes the step in, and in between the depth is the same at last
    simp only [printed, printed_append, Op.printed, Op.shift, level_cons, level_append, level_nil,
      hlevel, String.append_assoc, String.append_empty, String.empty_append, Int.add_zero,
      Int.zero_add, Int.reduceNeg, Int.reduceAdd]

end RustModule

/-- The operations that lay a file out in the notation of a target. -/
def Target.layout : Target → SourceUnit → RenderContext → List Op
  | .cpp => CppHeader.layout
  | .rust => RustModule.layout

/-- The indent unit of a target. -/
def Target.indentUnit : Target → String
  | .cpp => CppHeader.indentUnit
  | .rust => RustModule.indentUnit

theorem balanced_layout (target : Target) (u : SourceUnit) (ctx : RenderContext) :
    Balanced (target.layout u ctx) := by
  cases target with
  | cpp => exact CppHeader.balanced_layout u ctx
  | rust => exact RustModule.balanced_layout u ctx

theorem render_eq (target : Target) (u : SourceUnit) (ctx : RenderContext) :
    target.render u ctx = (applyAll target.indentUnit (target.layout u ctx) .empty).text := by
  cases target <;> rfl

/-- Balanced operations come back to the depth that they begin at, and what they
write is told by their nesting.  Of others the depth is, at any point, by as much
above what the steps add up to as this would have been below zero.  Generated
files are laid out in balance, and a module in them is closed at the depth at
which it is opened. -/
theorem indentation_follows_nesting :
    (∀ unit ops, Balanced ops → ∀ sheet, applyAll unit ops sheet
        = ⟨sheet.text ++ printed unit sheet.depth ops, sheet.depth⟩)
    ∧ (∀ unit ops sheet, applyAll unit (unfolded ops) sheet = applyAll unit ops sheet
      ∧ ∀ front, front <+: unfolded ops →
        ((applyAll unit front sheet).depth : Int)
            = sheet.depth + level front - min 0 (lowest sheet.depth front)
          ∧ 0 ≤ sheet.depth + level front - min 0 (lowest sheet.depth front))
    ∧ (∀ (target : Target) u ctx, Balanced (target.layout u ctx)
      ∧ target.render u ctx = printed target.indentUnit 0 (target.layout u ctx)
      ∧ (applyAll target.indentUnit (target.layout u ctx) .empty).depth = 0)
    ∧ ∀ u ctx, u.kind = .index → RustModule.render u ctx
      = printed RustModule.indentUnit 0 [.line generatedNotice, .line u.kind.provenance, .blank]
        ++ RustModule.modules RustModule.indentUnit
          (fun depth => printed RustModule.indentUnit depth (RustModule.moduleBody u ctx)) 0
          ctx.scope := by
  have hlaid : ∀ (target : Target) u ctx, applyAll target.indentUnit (target.layout u ctx) .empty
      = ⟨printed target.indentUnit 0 (target.layout u ctx), 0⟩ := by
    intro target u ctx
    rw [(balanced_layout target u ctx).prints]
    simp [Sheet.empty]
  refine ⟨fun unit ops h => h.prints, fun unit ops sheet => ⟨applyAll_unfolded unit ops sheet,
    fun front hfront => ⟨?_, ?_⟩⟩, fun target u ctx => ⟨balanced_layout target u ctx, ?_, ?_⟩,
    fun u ctx hindex => ?_⟩
  · refine depth_applyAll_of_simple (fun op hop => ?_) sheet
    exact isSimple_of_mem_unfolded ops (hfront.subset hop)
  · have := lowest_le_level sheet.depth front
    omega
  · rw [render_eq, hlaid]
  · rw [hlaid]
  · have hrender := congrArg Sheet.text (hlaid .rust u ctx)
    have hbody := RustModule.printed_enclosed RustModule.indentUnit 0 ctx.scope
      (RustModule.balanced_moduleBody u ctx)
    rw [← hbody]
    refine hrender.trans ?_
    show printed RustModule.indentUnit 0 (RustModule.layout u ctx) = _
    rw [RustModule.layout_index u ctx hindex, printed_append]
    rfl

/-- A block with a step of its own. -/
def steppedBlock : List Op :=
  [.line "a:", .nested [.line "b", .indent, .line "c", .dedent, .blank], .line "d"]

theorem balanced_steppedBlock : Balanced steppedBlock := by
  have hstep : Balanced [.indent, .line "c", .dedent] := Balanced.stepped (.line .nil)
  exact .line (.nested (.line (hstep.append (.blank .nil))) (.line .nil))

/-- A block with a step of its own, from depth one on; a step out at depth zero,
with the line after it; and two modules, the inner one of them inside of the
outer one. -/
theorem indentation_follows_steppedBlock :
    Balanced steppedBlock
      ∧ applyAll "  " steppedBlock ⟨"", 1⟩ = ⟨"  a:\n    b\n      c\n\n  d\n", 1⟩
      ∧ [.dedent, .indent] <+: unfolded [.dedent, .indent, .line "x"]
      ∧ (applyAll "  " [.dedent, .indent] ⟨"", 0⟩).depth = 1
      ∧ RustModule.render ⟨"index", .index, []⟩ ⟨["a"], 12⟩
        = "// Auto-generated file - DO NOT EDIT\n// Index of all bundled web files\n\n"
          ++ "pub mod a \x7b\n    pub mod web_bundle \x7b\n"
          ++ "        #![allow(dead_code, non_upper_case_globals, unused_mut)]\n\n"
          ++ "    \x7d\n\x7d\n" := by
  obtain ⟨hprinted, hlifted, -, hmodules⟩ := indentation_follows_nesting
  have hfront : [.dedent, .indent] <+: unfolded [.dedent, .indent, .line "x"] := ⟨[.line "x"], rfl⟩
  refine ⟨balanced_steppedBlock, ?_, hfront, ?_, ?_⟩
  · rw [hprinted "  " steppedBlock balanced_steppedBlock]
    decide
  · have hdepth := ((hlifted "  " [.dedent, .indent, .line "x"] ⟨"", 0⟩).2 _ hfront).1
    exact Int.ofNat_inj.1 (hdepth.trans rfl)
  · rw [hmodules ⟨"index", .index, []⟩ ⟨["a"], 12⟩ rfl]
    decide +kernel

end AssetEmbed
