/-
  AssetEmbed.Proofs.Reading.RoundTrip — generated files say what was planned.

  A generated file is read in three steps: its comments are taken out, the
  rest is cut into tokens, and the reader of the target makes an outline of
  them.  None of the steps knows the bundle.

  Main results:
    * `decode_unit`   — a legible file is read as its outline.
    * `decode_render` — so is every file of a bundle whose paths stay inside
      their comments.
-/
import AssetEmbed.Proofs.Reading.Cpp
import AssetEmbed.Proofs.Reading.Rust

namespace AssetEmbed.Reading

/-- The reader of a target. -/
def reader : Target → Reader Outline
  | .cpp => Cpp.header
  | .rust => Rust.file

/-- What the text of a file says. -/
def decode (target : Target) (text : String) : Option Outline :=
  (tokens? (program target text.toList)).bind (readAll (reader target))

/-- Text that is read as tokens which a reader accepts. -/
theorem decode_eq {target : Target} {text : String} {ts : List Token} {o : Outline}
    (hs : Spells (program target text.toList) ts)
    (ha : Accepts (reader target) (ts ++ [.finish]) o) : decode target text = some o := by
  unfold decode
  rw [hs.tokens?_eq, Option.bind_some, readAll_of_accepts ha]

/-- A legible file is read as its outline. -/
theorem decode_unit {target : Target} {u : SourceUnit} {ctx : RenderContext}
    (hl : Legible target u) (hr : Regular u) (hs : ∀ name ∈ ctx.scope, IsWord name.toList) :
    decode target (target.render u ctx) = some (outline target ctx u) := by
  cases target with
  | cpp => exact decode_eq (Cpp.reads_header hl hr hs 0).2 (Cpp.accepts_header u ctx)
  | rust => exact decode_eq (Rust.reads_module hl hr hs 0).2 (Rust.accepts_module u ctx)

/-- Whether the declared length of a constant is the number of its bytes. -/
def Constant.HasLength : Constant → Prop
  | .bytes _ length content => length = some content.length
  | .text _ _ => True

theorem hasLength_of_mem_outline {ctx : RenderContext} {u : SourceUnit} {c : Constant}
    (h : c ∈ (outline .rust ctx u).constants) : c.HasLength := by
  obtain ⟨d, -, hd⟩ := List.mem_filterMap.1 h
  cases d with
  | bytes name content => cases hd; exact rfl
  | text name value => cases hd; trivial
  | comment _ | «include» _ | accessors _ => cases hd

theorem isScope_of_scopeProblems {s : Settings} (h : s.scopeProblems = []) :
    Settings.isScope s.scope = true := by
  unfold Settings.scopeProblems at h
  split at h
  · next hs => exact hs
  · cases h

/-- Each rendered file of a bundle is read as what was planned for it, if no
path breaks out of its comments; in Rust the declared lengths are right. -/
theorem decode_render {b : Bundle} {s : Settings} {files : List Rendered}
    (hr : render b s = .ok files) (hs : s.scopeProblems = [])
    (hp : ∀ a ∈ b.assets, '\n' ∉ a.path.toList
      ∧ (s.target = .cpp → a.path.toList.getLast? ≠ some '\\')) :
    ∃ us, plan b s = .ok us
      ∧ files.map (fun f => decode s.target f.content)
        = us.map (fun u => some (outline s.target s.renderContext u))
      ∧ (s.target = .rust → ∀ u ∈ us,
        ∀ c ∈ (outline s.target s.renderContext u).constants, c.HasLength) := by
  unfold render at hr
  cases hplan : plan b s with
  | error e =>
    rw [hplan] at hr
    cases hr
  | ok us =>
    rw [hplan] at hr
    cases hr
    refine ⟨us, rfl, ?_, fun ht u _ c hc => ?_⟩
    · have hus := (accepted_of_plan hplan).1
      have hscope := isWord_scope (isScope_of_scopeProblems hs)
      -- a path of one line keeps to its comment
      have hlines : ∀ a ∈ b.assets, OneLine s.target a.path.toList := fun a ha =>
        oneLine_of_notMem (hp a ha).1 (hp a ha).2
      rw [List.map_map]
      refine List.map_congr_left fun u hu => ?_
      rw [hus] at hu
      exact decode_unit (legible_of_mem_units hlines hu) (regular_of_mem_units hu) hscope
    -- only Rust declares the length
    · rw [ht] at hc
      exact hasLength_of_mem_outline hc

/-- A script and a page in Rust files of their own. -/
theorem decode_render_scriptAndPage :
    ∃ files, render scriptAndPage { Settings.default with mode := .split, target := .rust }
        = .ok files
      ∧ ∃ us, plan scriptAndPage { Settings.default with mode := .split, target := .rust }
          = .ok us
        ∧ files.map (fun f => decode .rust f.content)
          = us.map (fun u => some (outline .rust (RenderContext.ofScope "webembed" 12) u))
        ∧ (Target.rust = .rust → ∀ u ∈ us,
          ∀ c ∈ (outline .rust (RenderContext.ofScope "webembed" 12) u).constants, c.HasLength) :=
  ⟨_, rfl, decode_render (s := { Settings.default with mode := .split, target := .rust }) rfl
    (by decide) (by decide)⟩

end AssetEmbed.Reading
