import Mathlib.Data.Sum.Basic
import Mathlib.Logic.Basic

/-!
# Coroutines over a shared state

A coroutine runs without interruption up to its next suspension. Until it is
resumed the state is at the disposal of others, so it goes on from an arbitrary
one. All that it knows of the others are the states it has been resumed in, and
that is what it is here: a function of these. It may be suspended again and again
without end.

`resume` is one stretch, and everything else is said by it: `MayEnd` are the results
that some sequence of resumptions comes to, `Ends P` says that all of them are of
`P`, `Unsuspended` that the first stretch is the whole coroutine, which `run` is then,
and `Terminates` that it cannot be suspended without end.
-/

set_option autoImplicit false

namespace Restio.Lib

/-- What the last stretch leaves of the state, and the result if it was the end, by the
states in which the coroutine was resumed first and later. -/
structure Coroutine (σ α : Type) where
  stretch : σ → List σ → σ × Option α

/-- A part of a state that can be read and replaced on its own. -/
structure Part (τ σ : Type) where
  get : τ → σ
  set : σ → τ → τ
  get_set : ∀ s t, get (set s t) = s
  set_get : ∀ t, set (get t) t = t
  set_set : ∀ s s' t, set s (set s' t) = set s t

namespace Coroutine
variable {σ τ α β : Type}

/-- Up to the next suspension, if there is one before the end. -/
def resume (c : Coroutine σ α) (s : σ) : σ × (α ⊕ Coroutine σ α) :=
  match c.stretch s [] with
  | (s', some result) => (s', .inl result)
  | (s', none) => (s', .inr ⟨fun next later => c.stretch s (next :: later)⟩)

section Constructions

def done (result : α) : Coroutine σ α := ⟨fun s _ => (s, some result)⟩

def access (effect : σ → σ) (next : σ → Coroutine σ α) : Coroutine σ α :=
  ⟨fun s later => (next s).stretch (effect s) later⟩

def suspend (rest : Coroutine σ α) : Coroutine σ α :=
  ⟨fun s later =>
    match later with
    | [] => (s, none)
    | next :: later => rest.stretch next later⟩

def bindStretch (k : α → Coroutine σ β) : Coroutine σ α → σ → List σ → σ × Option β
  | c, s, [] =>
      match c.resume s with
      | (s', .inl result) => (k result).stretch s' []
      | (s', .inr _) => (s', none)
  | c, s, next :: later =>
      match c.resume s with
      | (s', .inl result) => (k result).stretch s' (next :: later)
      | (_, .inr rest) => bindStretch k rest next later

/-- One coroutine and then, without a suspension between, the one its result calls for. -/
def bind (c : Coroutine σ α) (k : α → Coroutine σ β) : Coroutine σ β := ⟨bindStretch k c⟩

def withinStretch (part : Part τ σ) : Coroutine σ α → τ → List τ → τ × Option α
  | c, t, [] =>
      match c.resume (part.get t) with
      | (s', .inl result) => (part.set s' t, some result)
      | (s', .inr _) => (part.set s' t, none)
  | c, t, next :: later =>
      match c.resume (part.get t) with
      | (s', .inl result) => (part.set s' t, some result)
      | (_, .inr rest) => withinStretch part rest next later

/-- The same on a part of a larger state. -/
def within (part : Part τ σ) (c : Coroutine σ α) : Coroutine τ α := ⟨withinStretch part c⟩

end Constructions

section Resumption

@[simp] theorem resume_done (result : α) (s : σ) : (done result).resume s = (s, .inl result) := rfl

@[simp] theorem resume_access (effect : σ → σ) (next : σ → Coroutine σ α) (s : σ) :
    (access effect next).resume s = (next s).resume (effect s) := rfl

@[simp] theorem resume_suspend (rest : Coroutine σ α) (s : σ) :
    (suspend rest).resume s = (s, .inr rest) := rfl

theorem resume_bind (c : Coroutine σ α) (k : α → Coroutine σ β) (s : σ) :
    (c.bind k).resume s =
      match c.resume s with
      | (s', .inl result) => (k result).resume s'
      | (s', .inr rest) => (s', .inr (rest.bind k)) := by
  rcases ran : c.resume s with ⟨s', result | rest⟩
  · have ended : ∀ later, bindStretch k c s later = (k result).stretch s' later := by
      intro later
      cases later <;> simp only [bindStretch, ran]
    simp only [bind, resume, ended]
  · have first : bindStretch k c s [] = (s', none) := by
      simp only [bindStretch, ran]
    have further : ∀ next later,
        bindStretch k c s (next :: later) = bindStretch k rest next later := by
      intro next later
      simp only [bindStretch, ran]
    simp only [bind, resume, first, further]

theorem resume_within (part : Part τ σ) (c : Coroutine σ α) (t : τ) :
    (c.within part).resume t =
      (part.set (c.resume (part.get t)).1 t,
        (c.resume (part.get t)).2.map id (Coroutine.within part)) := by
  rcases ran : c.resume (part.get t) with ⟨s', result | rest⟩
  · have ended : withinStretch part c t [] = (part.set s' t, some result) := by
      simp only [withinStretch, ran]
    simp only [within, resume, ended, Sum.map_inl, id_eq]
  · have first : withinStretch part c t [] = (part.set s' t, none) := by
      simp only [withinStretch, ran]
    have further : ∀ next later,
        withinStretch part c t (next :: later) = withinStretch part rest next later := by
      intro next later
      simp only [withinStretch, ran]
    simp only [within, resume, first, further, Sum.map_inr]

end Resumption

section Results

/-- A result that it comes to in some states in which it is resumed. -/
inductive MayEnd : Coroutine σ α → α → Prop
  | ended {c : Coroutine σ α} {result : α} (s s' : σ) (ran : c.resume s = (s', .inl result)) :
      MayEnd c result
  | left {c rest : Coroutine σ α} {result : α} (s s' : σ) (ran : c.resume s = (s', .inr rest))
      (later : MayEnd rest result) : MayEnd c result

/-- Every result it can come to satisfies the predicate. -/
def Ends (P : α → Prop) (c : Coroutine σ α) : Prop := ∀ result, c.MayEnd result → P result

/-- The same of what a resumption has come to. -/
def Outcome (P : α → Prop) : α ⊕ Coroutine σ α → Prop
  | .inl result => P result
  | .inr rest => rest.Ends P

variable {P : α → Prop} {Q : β → Prop}

theorem mayEnd_done {result other : α} (may : (done result : Coroutine σ α).MayEnd other) :
    other = result := by
  cases may with
  | ended s s' ran =>
    cases ran
    rfl
  | left s s' ran later => cases ran

theorem mayEnd_access {effect : σ → σ} {next : σ → Coroutine σ α} {result : α}
    (may : (access effect next).MayEnd result) : ∃ s, (next s).MayEnd result := by
  cases may with
  | ended s s' ran => exact ⟨s, .ended (effect s) s' ran⟩
  | left s s' ran later => exact ⟨s, .left (effect s) s' ran later⟩

theorem mayEnd_suspend {rest : Coroutine σ α} {result : α} (may : (suspend rest).MayEnd result) :
    rest.MayEnd result := by
  cases may with
  | ended s s' ran => cases ran
  | left s s' ran later =>
    cases ran
    exact later

theorem mayEnd_bind {c : Coroutine σ α} {k : α → Coroutine σ β} {result : β}
    (may : (c.bind k).MayEnd result) : ∃ first, c.MayEnd first ∧ (k first).MayEnd result := by
  generalize whole : c.bind k = d at may
  induction may generalizing c with
  | ended s s' ran =>
    rw [← whole, resume_bind] at ran
    rcases came : c.resume s with ⟨between, first | rest⟩
    · rw [came] at ran
      exact ⟨first, .ended s between came, .ended between s' ran⟩
    · rw [came] at ran
      cases ran
  | left s s' ran later ih =>
    rw [← whole, resume_bind] at ran
    rcases came : c.resume s with ⟨between, first | rest⟩
    · rw [came] at ran
      exact ⟨first, .ended s between came, .left between s' ran later⟩
    · rw [came] at ran
      obtain ⟨first, before, after⟩ := ih (Sum.inr.inj (congrArg Prod.snd ran))
      exact ⟨first, .left s between came before, after⟩

theorem mayEnd_within {part : Part τ σ} {c : Coroutine σ α} {result : α}
    (may : (c.within part).MayEnd result) : c.MayEnd result := by
  generalize whole : c.within part = d at may
  induction may generalizing c with
  | ended t t' ran =>
    rw [← whole, resume_within] at ran
    rcases came : c.resume (part.get t) with ⟨s', first | rest⟩
    · rw [came] at ran
      cases ran
      exact .ended _ s' came
    · rw [came] at ran
      cases ran
  | left t t' ran later ih =>
    rw [← whole, resume_within] at ran
    rcases came : c.resume (part.get t) with ⟨s', first | rest⟩
    · rw [came] at ran
      cases ran
    · rw [came] at ran
      exact .left _ s' came (ih (Sum.inr.inj (congrArg Prod.snd ran)))

/-- What a resumption has come to, or can still come to, the coroutine could. -/
theorem mayEnd_of_resume {c : Coroutine σ α} {s s' : σ} {outcome : α ⊕ Coroutine σ α}
    (ran : c.resume s = (s', outcome)) :
    (∀ result, outcome = .inl result → c.MayEnd result) ∧
      ∀ rest, outcome = .inr rest → ∀ result, rest.MayEnd result → c.MayEnd result := by
  constructor
  · rintro result rfl
    exact .ended s s' ran
  · rintro rest rfl result later
    exact .left s s' ran later

theorem ends_of_forall (all : ∀ result, P result) (c : Coroutine σ α) : c.Ends P :=
  fun result _ => all result

theorem ends_done {result : α} (holds : P result) : (done result : Coroutine σ α).Ends P := by
  intro other may
  rw [mayEnd_done may]
  exact holds

theorem ends_access {effect : σ → σ} {next : σ → Coroutine σ α} (ends : ∀ s, (next s).Ends P) :
    (access effect next).Ends P := by
  intro result may
  obtain ⟨s, later⟩ := mayEnd_access may
  exact ends s result later

theorem ends_suspend {rest : Coroutine σ α} (ends : rest.Ends P) : (suspend rest).Ends P :=
  fun result may => ends result (mayEnd_suspend may)

theorem Ends.bind {c : Coroutine σ α} {k : α → Coroutine σ β} (ends : c.Ends P)
    (continued : ∀ result, P result → (k result).Ends Q) : (c.bind k).Ends Q := by
  intro result may
  obtain ⟨first, before, after⟩ := mayEnd_bind may
  exact continued first (ends first before) result after

theorem Ends.within {c : Coroutine σ α} (ends : c.Ends P) (part : Part τ σ) :
    (c.within part).Ends P :=
  fun result may => ends result (mayEnd_within may)

/-- A resumption ends with an admissible result or leaves a rest that will. -/
theorem Ends.resume {c : Coroutine σ α} (ends : c.Ends P) (s : σ) :
    Outcome P (c.resume s).2 := by
  rcases ran : c.resume s with ⟨s', result | rest⟩
  · exact ends result (.ended s s' ran)
  · exact fun result later => ends result (.left s s' ran later)

end Results

section AtOnce

/-- It runs to its end at once. -/
def Unsuspended (c : Coroutine σ α) : Prop := ∀ s, (c.resume s).2.isLeft = true

/-- The whole of a coroutine that is never suspended. -/
def run (c : Coroutine σ α) (atOnce : c.Unsuspended) (s : σ) : σ × α :=
  ((c.resume s).1, (c.resume s).2.getLeft (atOnce s))

theorem run_of_resume {c : Coroutine σ α} (atOnce : c.Unsuspended) {s s' : σ} {result : α}
    (ran : c.resume s = (s', .inl result)) : c.run atOnce s = (s', result) := by
  simp only [run, ran, Sum.getLeft_inl]

theorem resume_of_unsuspended {c : Coroutine σ α} (atOnce : c.Unsuspended) (s : σ) :
    c.resume s = ((c.run atOnce s).1, .inl (c.run atOnce s).2) := by
  rcases ran : c.resume s with ⟨s', result | rest⟩
  · rw [run_of_resume atOnce ran]
  · have ended := atOnce s
    rw [ran] at ended
    cases ended

theorem unsuspended_done (result : α) : (done result : Coroutine σ α).Unsuspended := fun _ => rfl

theorem unsuspended_access {effect : σ → σ} {next : σ → Coroutine σ α}
    (atOnce : ∀ s, (next s).Unsuspended) : (access effect next).Unsuspended :=
  fun s => atOnce s (effect s)

theorem Unsuspended.bind {c : Coroutine σ α} {k : α → Coroutine σ β} (atOnce : c.Unsuspended)
    (continued : ∀ result, (k result).Unsuspended) : (c.bind k).Unsuspended := by
  intro s
  rw [resume_bind, resume_of_unsuspended atOnce s]
  exact continued _ _

theorem Unsuspended.within {c : Coroutine σ α} (atOnce : c.Unsuspended) (part : Part τ σ) :
    (c.within part).Unsuspended := by
  intro t
  rw [resume_within, resume_of_unsuspended atOnce]
  rfl

end AtOnce

section Termination

/-- What some resumption of the coroutine leaves. -/
def Follows (rest c : Coroutine σ α) : Prop := ∃ s s', c.resume s = (s', .inr rest)

/-- It is not suspended without end: no infinite sequence begins with it in which each
coroutine is what a resumption of the one before has left. -/
def Terminates (c : Coroutine σ α) : Prop := Acc Follows c

theorem Terminates.of_done (result : α) : (done result : Coroutine σ α).Terminates := by
  refine Acc.intro _ (fun rest follows => ?_)
  obtain ⟨s, s', left⟩ := follows
  cases left

theorem Terminates.of_access {effect : σ → σ} {next : σ → Coroutine σ α}
    (terminates : ∀ s, (next s).Terminates) : (access effect next).Terminates := by
  refine Acc.intro _ (fun rest follows => ?_)
  obtain ⟨s, s', left⟩ := follows
  exact (terminates s).inv ⟨effect s, s', left⟩

theorem Terminates.of_suspend {rest : Coroutine σ α} (terminates : rest.Terminates) :
    (suspend rest).Terminates := by
  refine Acc.intro _ (fun rest' follows => ?_)
  obtain ⟨s, s', left⟩ := follows
  cases left
  exact terminates

theorem Terminates.bind {c : Coroutine σ α} {k : α → Coroutine σ β} (terminates : c.Terminates)
    (continued : ∀ result, (k result).Terminates) : (c.bind k).Terminates := by
  induction terminates with
  | intro c _ ih =>
    refine Acc.intro _ (fun rest follows => ?_)
    obtain ⟨s, s', left⟩ := follows
    rw [resume_bind] at left
    rcases came : c.resume s with ⟨between, first | later⟩
    · rw [came] at left
      exact (continued first).inv ⟨between, s', left⟩
    · rw [came] at left
      cases left
      exact ih later ⟨s, s', came⟩

theorem Terminates.within {c : Coroutine σ α} (terminates : c.Terminates) (part : Part τ σ) :
    (c.within part).Terminates := by
  induction terminates with
  | intro c _ ih =>
    refine Acc.intro _ (fun rest follows => ?_)
    obtain ⟨t, t', left⟩ := follows
    rw [resume_within] at left
    rcases came : c.resume (part.get t) with ⟨s', first | later⟩
    · rw [came] at left
      cases left
    · rw [came] at left
      cases left
      exact ih later ⟨_, s', came⟩

end Termination
end Coroutine
end Restio.Lib
