/-
  AssetEmbed.Proofs.Reading.Namespaces — what `std` means in a C++ header.

  A generated header opens namespaces and uses names of the standard library
  inside them.  C++ looks such a name up from the innermost namespace outwards
  and stops at the first one that has a namespace of this name in it; variables
  do not count.  So a segment `std` of the configured namespace that has
  another segment around it takes the place of the standard library.

  Main results:
    * `findings?_header`     — the namespaces that a header opens, and its uses.
    * `lookUp_eq_global_iff` — when a look-up gets past all namespaces.
    * `stdIsGlobal_iff`      — `std` is the standard library in all headers of
      a bundle just if no segment of the namespace but the first has its name.
-/
import AssetEmbed.Proofs.Reading.Containment
import AssetEmbed.Proofs.Validation

namespace AssetEmbed.Reading

-- Fixed texts are checked by evaluating them, one step for each character.
set_option maxRecDepth 4000

/-! ## §1. Names in a program. -/

/-- What an open brace belongs to. -/
inductive Brace where
  | namespace (name : List Char)
  | block
deriving DecidableEq, Repr

/-- What the last tokens may be the beginning of. -/
inductive Lead where
  | nothing
  /-- A name, unless it stands behind `::` and so belongs to another name. -/
  | name (first : Option (List Char))
  /-- The same and a colon. -/
  | colon (first : Option (List Char))
  /-- What comes next belongs to the name before `::`. -/
  | qualified
  /-- The name of a namespace. -/
  | heading (name : List Char)
deriving DecidableEq, Repr

/-- Where a reader stands: the open braces, innermost first, and the last tokens. -/
structure Standpoint where
  braces : List Brace
  lead : Lead
deriving DecidableEq, Repr

/-- The namespaces around a place, innermost first. -/
def enclosing (braces : List Brace) : List (List Char) :=
  braces.filterMap fun
    | .namespace name => some name
    | .block => none

/-- What there is to say about the namespaces of a program. -/
inductive Finding where
  /-- A namespace is opened; its name comes first, and then those around it. -/
  | opened (path : List (List Char))
  /-- A name stands before `::`, inside these namespaces. -/
  | used (name : List Char) (around : List (List Char))
deriving DecidableEq, Repr

/-- Goes over a token. -/
def survey : Standpoint → Token → Standpoint × List Finding
  | ⟨braces, lead⟩, .word w =>
    match lead with
    | .name (some v) =>
      if v = "namespace".toList then (⟨braces, .heading w⟩, []) else (⟨braces, .name (some w)⟩, [])
    | .qualified => (⟨braces, .name none⟩, [])
    | _ => (⟨braces, .name (some w)⟩, [])
  | ⟨braces, lead⟩, .mark c =>
    if c = ':' then
      match lead with
      | .name first => (⟨braces, .colon first⟩, [])
      -- only the first name of several with `::` between them is looked up
      | .colon (some w) => (⟨braces, .qualified⟩, [.used w (enclosing braces)])
      | .colon none => (⟨braces, .qualified⟩, [])
      | _ => (⟨braces, .colon none⟩, [])
    else if c = '\x7b' then
      match lead with
      | .heading w => (⟨.namespace w :: braces, .nothing⟩, [.opened (w :: enclosing braces)])
      | _ => (⟨.block :: braces, .nothing⟩, [])
    else if c = '\x7d' then (⟨braces.tail, .nothing⟩, [])
    else (⟨braces, .nothing⟩, [])
  | ⟨braces, _⟩, _ => (⟨braces, .nothing⟩, [])

/-- The namespaces that the text of a header opens and uses, in order. -/
def findings? (text : String) : Option (List Finding) :=
  (tokens? (program .cpp text.toList)).map fun ts => (transduce survey ⟨[], .nothing⟩ ts).2

/-! ## §2. Looking up. -/

/-- The namespace that a name denotes: of those around the place the innermost
that has a namespace of this name in it has the say. -/
def lookUp (known : List (List (List Char))) (name : List Char) :
    List (List Char) → Option (List (List Char))
  | [] => if [name] ∈ known then some [name] else none
  | inner :: outer =>
    if name :: inner :: outer ∈ known then some (name :: inner :: outer)
    else lookUp known name outer

/-- The namespace of the standard library. -/
def std : List Char := "std".toList

def Finding.opened? : Finding → Option (List (List Char))
  | .opened path => some path
  | .used .. => none

/-- The namespaces that there are: the standard library, which every header
includes, and those that the headers open. -/
def known (headers : List (List Finding)) : List (List (List Char)) :=
  [std] :: headers.flatten.filterMap Finding.opened?

/-- Whether `std` denotes the standard library wherever it is used in headers. -/
def StdIsGlobal (headers : List (List Finding)) : Prop :=
  ∀ found ∈ headers, ∀ around, .used std around ∈ found →
    lookUp (known headers) std around = some [std]

/-- A name means the outermost namespace of this name just if no namespace on
the way there has one. -/
theorem lookUp_eq_global_iff {known : List (List (List Char))} {name : List Char}
    (h : [name] ∈ known) {around : List (List Char)} :
    lookUp known name around = some [name]
      ↔ ∀ outer, outer <:+ around → outer ≠ [] → name :: outer ∉ known := by
  induction around with
  | nil =>
    rw [lookUp, if_pos h]
    exact iff_of_true rfl fun outer ho hne => absurd (List.suffix_nil.1 ho) hne
  | cons inner outer ih =>
    rw [lookUp]
    split
    · next hk =>
      -- what is found in the innermost namespace is another one
      refine iff_of_false (by simp) fun hall => ?_
      exact hall _ (List.suffix_refl _) (List.cons_ne_nil _ _) hk
    · next hk =>
      rw [ih]
      refine ⟨fun hall way hw hne => ?_, fun hall way hw => hall way (List.suffix_cons_iff.2 (.inr hw))⟩
      rcases List.suffix_cons_iff.1 hw with rfl | hw
      · exact hk
      · exact hall way hw hne

/-! ## §3. Headers of one shape. -/

/-- Namespaces that are opened one inside the other. -/
def openings (around : List (List Char)) : List (List Char) → List Finding
  | [] => []
  | name :: rest => .opened (name :: around) :: openings (name :: around) rest

/-- What there is to say about a header that uses `std` some times inside a scope. -/
def account (scope : List (List Char)) (uses : Nat) : List Finding :=
  openings [] scope ++ List.replicate uses (.used std scope.reverse)

theorem opened_mem_openings {around scope path : List (List Char)} :
    .opened path ∈ openings around scope
      ↔ ∃ front, front ≠ [] ∧ front <+: scope ∧ path = front.reverse ++ around := by
  induction scope generalizing around with
  | nil => simp [openings]
  | cons name rest ih =>
    rw [openings, List.mem_cons, ih]
    constructor
    · rintro (heq | ⟨front, -, hp, rfl⟩)
      · cases heq
        exact ⟨[name], by simp⟩
      · exact ⟨name :: front, by simpa using hp⟩
    · rintro ⟨front, hne, hp, rfl⟩
      cases front with
      | nil => exact absurd rfl hne
      | cons first others =>
        obtain ⟨rfl, hp⟩ := List.cons_prefix_cons.1 hp
        cases others with
        | nil => exact .inl rfl
        | cons next more => exact .inr ⟨next :: more, by simpa using hp⟩

theorem used_mem_account {scope around : List (List Char)} {uses : Nat} :
    .used std around ∈ account scope uses ↔ 0 < uses ∧ around = scope.reverse := by
  have hnot : .used std around ∉ openings [] scope := by
    have hopened : ∀ around rest, ∀ f ∈ openings around rest, ∃ path, f = .opened path := by
      intro around rest
      induction rest generalizing around with
      | nil => simp [openings]
      | cons name rest ih => simpa [openings] using ih (name :: around)
    intro hm
    obtain ⟨path, hpath⟩ := hopened _ _ _ hm
    cases hpath
  unfold account
  rw [List.mem_append, or_iff_right hnot, List.mem_replicate, Nat.pos_iff_ne_zero]
  simp

/-- Headers around one scope know its namespaces and the standard library. -/
theorem mem_known_accounts {scope : List (List Char)} {counts : List Nat} (hne : counts ≠ [])
    {path : List (List Char)} :
    path ∈ known (counts.map (account scope))
      ↔ path = [std] ∨ path ≠ [] ∧ path <:+ scope.reverse := by
  have hopened : path ∈ (counts.map (account scope)).flatten.filterMap Finding.opened?
      ↔ .opened path ∈ openings [] scope := by
    constructor
    · intro hm
      obtain ⟨f, hf, hpath⟩ := List.mem_filterMap.1 hm
      obtain ⟨found, hfound, hin⟩ := List.mem_flatten.1 hf
      obtain ⟨uses, -, rfl⟩ := List.mem_map.1 hfound
      -- a use opens nothing
      rcases List.mem_append.1 hin with hin | hin
      · cases f with
        | opened _ => cases hpath; exact hin
        | used _ _ => cases hpath
      · rw [List.eq_of_mem_replicate hin] at hpath
        cases hpath
    · intro hm
      obtain ⟨uses, huses⟩ := List.exists_mem_of_ne_nil counts hne
      exact List.mem_filterMap.2 ⟨.opened path, List.mem_flatten.2
        ⟨_, List.mem_map_of_mem huses, List.mem_append_left _ hm⟩, rfl⟩
  unfold known
  rw [List.mem_cons, hopened, opened_mem_openings]
  refine or_congr_right ⟨?_, fun ⟨hpath, hs⟩ => ?_⟩
  · rintro ⟨front, hfront, hp, rfl⟩
    rw [List.append_nil]
    exact ⟨by simpa using hfront, List.reverse_suffix.2 hp⟩
  · refine ⟨path.reverse, by simpa using hpath, ?_, by simp⟩
    exact List.reverse_suffix.1 (by simpa using hs)

/-- A name has others around it just if it is not the first. -/
theorem exists_suffix_iff_mem_tail {name : List Char} {scope : List (List Char)} :
    (∃ outer, outer ≠ [] ∧ name :: outer <:+ scope.reverse) ↔ name ∈ scope.tail := by
  cases scope with
  | nil => simp
  | cons first rest =>
    rw [List.reverse_cons, List.tail_cons]
    constructor
    · rintro ⟨outer, hne, front, happend⟩
      -- the last of those around the name is the first of all
      obtain ⟨between, last, rfl⟩ := List.eq_nil_or_concat' outer |>.resolve_left hne
      rw [← List.cons_append, ← List.append_assoc] at happend
      have hrest := (List.append_inj' happend rfl).1
      rw [← List.mem_reverse, ← hrest]
      exact List.mem_append_right _ List.mem_cons_self
    · intro hm
      obtain ⟨front, back, hrest⟩ := List.append_of_mem (List.mem_reverse.2 hm)
      exact ⟨back ++ [first], by simp, front, by rw [hrest]; simp⟩

/-- In headers around one scope `std` is the standard library just if no name
in the scope but the first is `std`. -/
theorem stdIsGlobal_accounts {scope : List (List Char)} {counts : List Nat} (hne : counts ≠ [])
    (hpos : ∀ uses ∈ counts, 0 < uses) :
    StdIsGlobal (counts.map (account scope)) ↔ std ∉ scope.tail := by
  have hglobal : [std] ∈ known (counts.map (account scope)) := List.mem_cons_self
  -- a namespace `std` with others around it is known just if it is one of the scope
  have hnested : (∀ outer, outer <:+ scope.reverse → outer ≠ [] →
      std :: outer ∉ known (counts.map (account scope))) ↔ std ∉ scope.tail := by
    rw [← exists_suffix_iff_mem_tail, not_exists]
    refine forall_congr' fun outer => ?_
    rw [mem_known_accounts hne]
    constructor
    · rintro hall ⟨hout, hs⟩
      exact hall ((List.suffix_cons _ _).trans hs) hout (.inr ⟨List.cons_ne_nil _ _, hs⟩)
    · rintro hnot - hout (heq | ⟨-, hs⟩)
      · exact hout (List.cons.inj heq).2
      · exact hnot ⟨hout, hs⟩
  rw [← hnested, ← lookUp_eq_global_iff hglobal]
  constructor
  · intro hall
    obtain ⟨uses, huses⟩ := List.exists_mem_of_ne_nil counts hne
    exact hall _ (List.mem_map_of_mem huses) _ (used_mem_account.2 ⟨hpos uses huses, rfl⟩)
  · intro hlook found hfound around hused
    obtain ⟨uses, -, rfl⟩ := List.mem_map.1 hfound
    rw [(used_mem_account.1 hused).2]
    exact hlook

/-! ## §4. Tokens of a header. -/

/-- Whether tokens lead from open braces to others, opening no namespace and
using a number of times `std` and nothing else. -/
def Passes (ts : List Token) (before after : List Brace) (uses : Nat) : Prop :=
  transduce survey ⟨before, .nothing⟩ ts
    = (⟨after, .nothing⟩, List.replicate uses (.used std (enclosing before)))

variable {ts us : List Token} {k k' k'' : List Brace} {m n : Nat}

theorem Passes.append (h : Passes ts k k' m) (h' : Passes us k' k'' n)
    (he : enclosing k' = enclosing k) : Passes (ts ++ us) k k'' (m + n) := by
  unfold Passes at h h' ⊢
  rw [transduce_append_of_eq h h', he, List.replicate_append_replicate]

theorem Passes.flatMap {α : Type} {xs : List α} {f : α → List Token}
    (h : ∀ x ∈ xs, Passes (f x) k k n) : Passes (xs.flatMap f) k k (xs.length * n) := by
  induction xs with
  | nil =>
    rw [List.length_nil, Nat.zero_mul]
    rfl
  | cons x rest ih =>
    obtain ⟨hx, hrest⟩ := List.forall_mem_cons.1 h
    rw [List.flatMap_cons, List.length_cons, Nat.succ_mul, Nat.add_comm]
    exact hx.append (ih hrest) rfl

/-- Tokens inside a block, and the brace that closes it. -/
theorem Passes.close (h : Passes ts k (.block :: k) m) (h' : Passes us (.block :: k) (.block :: k) n)
    {close : List Token} (hc : Passes close (.block :: k) k 0) :
    Passes (ts ++ us ++ close) k k (m + n) :=
  (h.append h' rfl).append hc rfl

namespace Cpp

/-- A constant uses `std` once, for its type. -/
theorem passes_constant (c : Constant) (k : List Brace) : Passes (constantTokens c) k k 1 := by
  cases c with
  | bytes ident length content =>
    have hopen : Passes (phrase "inline const std::vector<unsigned char> "
        ++ ([.word ident.toList] ++ phrase " = \x7b")) k (.block :: k) 1 := by rfl
    have hbytes : Passes (content.flatMap byteTokens) (.block :: k) (.block :: k)
        (content.length * 0) := .flatMap fun _ _ => by rfl
    have hclose : Passes (phrase "\x7d;") (.block :: k) k 0 := by rfl
    have hall := hopen.close hbytes hclose
    simp only [Nat.mul_zero, Nat.add_zero, List.append_assoc] at hall
    exact hall
  | text ident value => rfl

/-- A map function uses `std` in its first two lines. -/
theorem passes_mapFunction (shape : MapShape)
    (ho : ∀ k, Passes (phrase shape.opening) k (.block :: k) 3)
    (hf : ∀ k, Passes (phrase shape.first) k k 3)
    (hr : ∀ key ident k, Passes (shape.rowTokens .cpp key ident) k k 0)
    (hl : ∀ k, Passes (phrase shape.last) k k 0)
    (ident : IndexEntry → String) (entries : List IndexEntry) (k : List Brace) :
    Passes (shape.tokens .cpp ident entries) k k 6 := by
  have hrows : Passes (entries.flatMap fun e => shape.rowTokens .cpp e.path (ident e))
      (.block :: k) (.block :: k) (entries.length * 0) :=
    .flatMap fun e _ => hr e.path (ident e) _
  have hbody := (hf (.block :: k)).append (hrows.append (hl _) rfl) rfl
  exact (ho k).close hbody (by rfl)

/-- The accessors use `std` in their signatures and for their maps. -/
theorem passes_accessors (entries : List IndexEntry) (k : List Brace) :
    Passes (accessors.tokens .cpp entries) k k 22 := by
  have hfiles := passes_mapFunction accessors.files
    (fun _ => by rfl) (fun _ => by rfl) (fun _ _ _ => by rfl) (fun _ => by rfl)
    IndexEntry.symbol entries k
  have hpaths := passes_mapFunction accessors.paths
    (fun _ => by rfl) (fun _ => by rfl) (fun _ _ _ => by rfl) (fun _ => by rfl)
    (fun e => e.symbol ++ Asset.pathSuffix) entries k
  have hmimeTypes := passes_mapFunction accessors.mimeTypes
    (fun _ => by rfl) (fun _ => by rfl) (fun _ _ _ => by rfl) (fun _ => by rfl)
    (fun e => e.symbol ++ Asset.mimeSuffix) entries k
  have hlookups : Passes (accessors.lookups.flatMap phrase) k k 4 := by rfl
  exact ((hfiles.append hpaths rfl).append hmimeTypes rfl).append hlookups rfl

/-- Opening the scope opens its namespaces one inside the other. -/
theorem survey_open (scope : List String) (k : List Brace) :
    transduce survey ⟨k, .nothing⟩ (scope.flatMap openTokens)
      = (⟨(scope.map fun name => Brace.namespace name.toList).reverse ++ k, .nothing⟩,
         openings (enclosing k) (scope.map String.toList)) := by
  induction scope generalizing k with
  | nil => rfl
  | cons name rest ih =>
    have hfirst : transduce survey ⟨k, .nothing⟩ (openTokens name)
        = (⟨.namespace name.toList :: k, .nothing⟩, [.opened (name.toList :: enclosing k)]) := by
      rfl
    rw [List.flatMap_cons, transduce_append_of_eq hfirst (ih _)]
    simp [openings, enclosing]

/-- Closing the scope finds nothing. -/
theorem survey_close (scope : List String) (k : List Brace) :
    (transduce survey ⟨k, .nothing⟩ ((scope.flatMap fun _ => phrase "\x7d") ++ [.finish])).2
      = [] := by
  induction scope generalizing k with
  | nil => rfl
  | cons name rest ih =>
    have hfirst : transduce survey ⟨k, .nothing⟩ (phrase "\x7d") = (⟨k.tail, .nothing⟩, []) := by
      rfl
    rw [List.flatMap_cons, List.append_assoc, transduce_append, hfirst]
    exact ih k.tail

/-- How often a header uses `std`. -/
def stdUses (o : Outline) : Nat := o.constants.length * 1 + if o.accessors.isSome then 22 else 0

theorem passes_declarations (o : Outline) (k : List Brace) :
    Passes (o.constants.flatMap constantTokens ++ o.accessors.elim [] (accessors.tokens .cpp))
      k k (stdUses o) := by
  refine (Passes.flatMap fun c _ => passes_constant c k).append ?_ rfl
  cases o.accessors with
  | none => rfl
  | some entries => exact passes_accessors entries k

/-- The directives in front of the namespaces open and use nothing. -/
theorem passes_directives (o : Outline) :
    Passes (preambleTokens o ++ o.includes.flatMap inclusionTokens) [] [] 0 := by
  have hpreamble : Passes (preambleTokens o) [] [] 0 := by
    unfold preambleTokens
    cases o.accessors with
    | none => rfl
    | some _ => rfl
  have hincludes : Passes (o.includes.flatMap inclusionTokens) [] [] (o.includes.length * 0) :=
    .flatMap fun _ _ => by rfl
  exact hpreamble.append hincludes rfl

theorem survey_header (o : Outline) :
    (transduce survey ⟨[], .nothing⟩ (headerTokens o ++ [.finish])).2
      = account (o.scope.map String.toList) (stdUses o) := by
  have htokens : headerTokens o ++ [.finish]
      = (preambleTokens o ++ o.includes.flatMap inclusionTokens)
        ++ (o.scope.flatMap openTokens
          ++ ((o.constants.flatMap constantTokens ++ o.accessors.elim [] (accessors.tokens .cpp))
            ++ ((o.scope.reverse.flatMap fun _ => phrase "\x7d") ++ [.finish]))) := by
    simp only [headerTokens, contentTokens, List.append_assoc]
  have hdirectives := passes_directives o
  have hdeclarations := passes_declarations o
    ((o.scope.map fun name => Brace.namespace name.toList).reverse ++ [])
  unfold Passes at hdirectives hdeclarations
  -- inside all namespaces the ones around are those of the scope, innermost first
  have haround : enclosing ((o.scope.map fun name => Brace.namespace name.toList).reverse ++ [])
      = (o.scope.map String.toList).reverse := by
    rw [List.append_nil, enclosing, List.filterMap_reverse, List.filterMap_map]
    exact congrArg List.reverse (congrFun List.filterMap_eq_map o.scope)
  rw [htokens, transduce_append, hdirectives, transduce_append, survey_open, transduce_append,
    hdeclarations, survey_close, haround]
  simp [account, enclosing]

end Cpp

/-- The namespaces that a legible header opens, and its uses of `std`. -/
theorem findings?_header {u : SourceUnit} {ctx : RenderContext} (hl : Legible .cpp u)
    (hr : Regular u) (hs : ∀ name ∈ ctx.scope, IsWord name.toList) :
    findings? (CppHeader.render u ctx)
      = some (account (ctx.scope.map String.toList) (Cpp.stdUses (outline .cpp ctx u))) := by
  have hspells := (Cpp.reads_header hl hr hs 0).2
  have htokens : tokens? (program .cpp (CppHeader.render u ctx).toList)
      = some (Cpp.headerTokens (outline .cpp ctx u) ++ [.finish]) := hspells.tokens?_eq
  unfold findings?
  rw [htokens, Option.map_some, Cpp.survey_header]
  rfl

/-! ## §5. Bundles. -/

/-- Each file of a bundle uses `std`. -/
theorem stdUses_pos {b : Bundle} {s : Settings} {u : SourceUnit} (h : u ∈ units b s) :
    0 < Cpp.stdUses (outline .cpp s.renderContext u) := by
  rcases eq_of_mem_units h with ⟨-, a, -, rfl⟩ | rfl
  · exact Nat.succ_pos _
  · have haccessors : (outline .cpp s.renderContext (indexUnit b s)).accessors.isSome = true := by
      show (indexUnit b s).accessors?.isSome = true
      rw [accessors?_indexUnit]
      rfl
    unfold Cpp.stdUses
    rw [if_pos haccessors]
    exact Nat.succ_pos _

theorem std_mem_tail_scope {s : Settings} (h : Settings.isScope s.scope = true) :
    std ∈ (s.renderContext.scope.map String.toList).tail ↔ "std" ∈ (scopePieces s.scope).tail := by
  have hne : scopePieces s.scope ≠ [] := fun hnil =>
    splitScope_ne_nil _ (List.map_eq_nil_iff.1 hnil)
  rw [(Settings.scope_renderContext h).2, ← List.map_tail, List.tail_append_of_ne_nil hne, List.map_append,
    List.mem_append]
  -- the fixed namespace has another name
  have hfixed : std ∉ [bundleModule].map String.toList := by decide
  rw [or_iff_left hfixed]
  exact List.mem_map_of_injective (fun _ _ => String.toList_inj.1)

/-- What the headers of a bundle open and use, and when `std` is the standard
library in them. -/
theorem findings?_files {b : Bundle} {s : Settings} {files : List Rendered}
    (hr : render b s = .ok files) (ht : s.target = .cpp)
    (hs : Settings.isScope s.scope = true) (hp : ∀ a ∈ b.assets, '\n' ∉ a.path.toList) :
    ∃ headers, files.map (fun f => findings? f.content) = headers.map some
      ∧ (∀ found ∈ headers, ∃ around, .used std around ∈ found)
      ∧ (StdIsGlobal headers ↔ "std" ∉ (scopePieces s.scope).tail) := by
  obtain ⟨us, hplan, rfl⟩ := render_eq_ok_iff.1 hr
  obtain ⟨rfl, haccepted⟩ := accepted_of_plan hplan
  have hlines : ∀ a ∈ b.assets, OneLine s.target a.path.toList := fun a ha =>
    (oneLine_path_iff haccepted ha).2 (hp a ha)
  -- all headers are of one shape
  have heach : ∀ u ∈ units b s, findings? (u.rendered s).content
      = some (account (s.renderContext.scope.map String.toList)
          (Cpp.stdUses (outline .cpp s.renderContext u))) := by
    intro u hu
    have hlegible := legible_of_mem_units hlines hu
    have hcontent : (u.rendered s).content = s.target.render u s.renderContext := rfl
    rw [ht] at hlegible hcontent
    rw [hcontent]
    exact findings?_header hlegible (regular_of_mem_units hu) (isWord_scope hs)
  have hne : (units b s).map (fun u => Cpp.stdUses (outline .cpp s.renderContext u)) ≠ [] := by
    unfold units
    cases s.mode <;> simp
  have hpos : ∀ uses ∈ (units b s).map
      (fun u => Cpp.stdUses (outline .cpp s.renderContext u)), 0 < uses := by
    intro uses hm
    obtain ⟨u, hu, rfl⟩ := List.mem_map.1 hm
    exact stdUses_pos hu
  refine ⟨_, ?_, ?_, (stdIsGlobal_accounts hne hpos).trans (not_congr (std_mem_tail_scope hs))⟩
  · rw [List.map_map, List.map_map, List.map_map]
    exact List.map_congr_left heach
  · intro found hfound
    obtain ⟨uses, huses, rfl⟩ := List.mem_map.1 hfound
    exact ⟨_, used_mem_account.2 ⟨hpos uses huses, rfl⟩⟩

/-- In the headers that are generated with accepted settings, `std` is used in
each and denotes the standard library everywhere, just if no segment of the
namespace has this name and another segment around it. -/
theorem stdIsGlobal_iff {b : Bundle} {s : Settings} {files : List Rendered}
    (hr : render b s = .ok files) (ht : s.target = .cpp) (hs : s.diagnostics = [])
    (hp : ∀ a ∈ b.assets, '\n' ∉ a.path.toList) :
    ∃ headers, files.map (fun f => findings? f.content) = headers.map some
      ∧ (∀ found ∈ headers, ∃ around, .used std around ∈ found)
      ∧ (StdIsGlobal headers ↔ "std" ∉ (scopePieces s.scope).tail) := by
  have hproblems : s.scopeProblems = [] := by
    simp only [Settings.diagnostics, List.append_eq_nil_iff] at hs
    exact hs.1.1.1
  exact findings?_files hr ht (isScope_of_scopeProblems hproblems) hp

/-- In a namespace that has `std` on the outside only, `std` is found. -/
theorem stdIsGlobal_outermost : ∃ files headers,
    render scriptAndPage { Settings.default with scope := "std::app" } = .ok files
      ∧ files.map (fun f => findings? f.content) = headers.map some
      ∧ StdIsGlobal headers := by
  obtain ⟨files, hr⟩ : ∃ files,
      render scriptAndPage { Settings.default with scope := "std::app" } = .ok files :=
    ⟨_, render_eq_ok_iff.2 ⟨units _ _, rfl, rfl⟩⟩
  obtain ⟨headers, hfound, -, hiff⟩ := stdIsGlobal_iff hr rfl (by decide) (by decide)
  exact ⟨files, headers, hr, hfound, hiff.2 (by decide)⟩

/-- The namespace `app::std` is accepted, and takes the place of the standard library. -/
theorem not_stdIsGlobal_nested :
    ({ Settings.default with scope := "app::std" }).diagnostics = []
      ∧ ∃ files headers,
        render scriptAndPage { Settings.default with scope := "app::std" } = .ok files
          ∧ files.map (fun f => findings? f.content) = headers.map some
          ∧ ¬ StdIsGlobal headers := by
  obtain ⟨files, hr⟩ : ∃ files,
      render scriptAndPage { Settings.default with scope := "app::std" } = .ok files :=
    ⟨_, render_eq_ok_iff.2 ⟨units _ _, rfl, rfl⟩⟩
  obtain ⟨headers, hfound, -, hiff⟩ := findings?_files hr rfl (by decide) (by decide)
  exact ⟨by decide, files, headers, hr, hfound, fun hglobal => hiff.1 hglobal (by decide)⟩

end AssetEmbed.Reading
