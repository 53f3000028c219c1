import Mathlib.Data.List.Induction

/-!
# Runs of a transition system

A system is a partial step function on states, driven by actions that resolve its
choices. A run is a sequence of steps, each of which meets a side condition; with
the side condition `fun _ _ => True` it is any run. The rules of this module turn a
fact about one step into a fact about every run.
-/

namespace Ivy.Lts

variable {σ α : Type}

/-- The steps of the list `as` lead from the first state to the second, and each of
    them meets the condition `ok`. -/
inductive Run (step : σ → α → Option σ) (ok : σ → α → Prop) : σ → List α → σ → Prop
  | nil (s : σ) : Run step ok s [] s
  | cons {s s₁ s₂ : σ} {a : α} {as : List α} :
      ok s a → step s a = some s₁ → Run step ok s₁ as s₂ → Run step ok s (a :: as) s₂

/-- Run the steps of a list, as far as they are enabled and meet the condition. -/
def exec (step : σ → α → Option σ) (ok : σ → α → Prop) [∀ s a, Decidable (ok s a)] :
    σ → List α → Option σ
  | s, [] => some s
  | s, a :: as => if ok s a then (step s a).bind fun s' => exec step ok s' as else none

variable {step : σ → α → Option σ} {ok ok' : σ → α → Prop} {s s' : σ} {as : List α}

/-- What can be executed is a run. -/
theorem Run.of_exec [∀ s a, Decidable (ok s a)] (h : exec step ok s as = some s') :
    Run step ok s as s' := by
  induction as generalizing s with
  | nil => cases h; exact .nil _
  | cons a as ih =>
    unfold exec at h
    split at h
    · rename_i hok
      obtain ⟨s₁, hstep, hrest⟩ := Option.bind_eq_some_iff.mp h
      exact .cons hok hstep (ih hrest)
    · exact nomatch h

/-- A weaker condition allows more runs. -/
theorem Run.mono (hle : ∀ s a, ok s a → ok' s a) (h : Run step ok s as s') :
    Run step ok' s as s' := by
  induction h with
  | nil s => exact .nil s
  | cons hok hstep _ ih => exact .cons (hle _ _ hok) hstep ih

/-- What every step keeps holds at the end of every run. -/
theorem Run.invariant {I : σ → Prop}
    (hkeep : ∀ s a s', I s → ok s a → step s a = some s' → I s')
    (h : Run step ok s as s') (hs : I s) : I s' := by
  induction h with
  | nil s => exact hs
  | cons hok hstep _ ih => exact ih (hkeep _ _ _ hs hok hstep)

/-- If every step makes a measure smaller, no run is longer than the measure. -/
theorem Run.length_le {m : σ → Nat}
    (hless : ∀ s a s', ok s a → step s a = some s' → m s' < m s)
    (h : Run step ok s as s') : as.length + m s' ≤ m s := by
  induction h with
  | nil s => simp
  | cons hok hstep _ ih =>
    have hlt := hless _ _ _ hok hstep
    simp only [List.length_cons]
    omega

/-! ## Systems without choices

Here every action has a step, and a property of steps is asked along a whole list. -/

section Total

variable {f : σ → α → σ} {P Q : σ → α → Prop} {I : σ → Prop}

/-- Every step of the list has the property `P`, in the state in which it is made. -/
def Always (f : σ → α → σ) (P : σ → α → Prop) : σ → List α → Prop
  | _, [] => True
  | s, a :: as => P s a ∧ Always f P (f s a) as

instance Always.decidable [∀ s a, Decidable (P s a)] :
    (s : σ) → (as : List α) → Decidable (Always f P s as)
  | _, [] => isTrue trivial
  | s, a :: as =>
    have := Always.decidable (f s a) as
    inferInstanceAs (Decidable (P s a ∧ Always f P (f s a) as))

/-- If two properties of a step agree wherever an invariant holds, and a step with the
    second property keeps the invariant, they agree along every list. -/
theorem always_congr (hlocal : ∀ s a, I s → (P s a ↔ Q s a))
    (hkeep : ∀ s a, I s → Q s a → I (f s a)) (hs : I s) :
    Always f P s as ↔ Always f Q s as := by
  induction as generalizing s with
  | nil => exact Iff.rfl
  | cons a as ih =>
    unfold Always
    rw [hlocal s a hs]
    -- the invariant is needed only behind steps with the second property
    exact and_congr_right fun hQ => ih (hkeep s a hs hQ)

/-- If one property of a step implies another wherever an invariant holds that it keeps, it
    does so along every list. -/
theorem Always.mono (hlocal : ∀ s a, I s → Q s a → P s a)
    (hkeep : ∀ s a, I s → Q s a → I (f s a)) (hs : I s) (h : Always f Q s as) :
    Always f P s as := by
  induction as generalizing s with
  | nil => exact h
  | cons a as ih => exact ⟨hlocal s a hs h.1, ih (hkeep s a hs h.1) h.2⟩

/-- Two properties agree along every list whose steps have a third one, if they agree in each such
    step. -/
theorem Always.congr {L : σ → α → Prop} (hlocal : ∀ s a, L s a → (P s a ↔ Q s a))
    (h : Always f L s as) : Always f P s as ↔ Always f Q s as := by
  induction as generalizing s with
  | nil => exact Iff.rfl
  | cons a as ih => exact and_congr (hlocal s a h.1) (ih h.2)

/-- A list all of whose steps meet the condition is a run. -/
theorem Always.run (h : Always f P s as) : Run (fun s a => some (f s a)) P s as (as.foldl f s) := by
  induction as generalizing s with
  | nil => exact .nil s
  | cons a as ih => exact .cons h.1 rfl (ih h.2)

/-- A property of the actions alone. -/
theorem Always.of_forall {p : α → Prop} (h : ∀ a ∈ as, p a) : Always f (fun _ a => p a) s as := by
  induction as generalizing s with
  | nil => trivial
  | cons a as ih =>
    exact ⟨h a List.mem_cons_self, ih fun b hb => h b (List.mem_cons_of_mem a hb)⟩

/-- What the steps of the list cost together, each in the state in which it is made. -/
def total (f : σ → α → σ) (cost : σ → α → Nat) : σ → List α → Nat
  | _, [] => 0
  | s, a :: as => cost s a + total f cost (f s a) as

/-- If every step pays its cost with a rise of `m`, which has a bound wherever the invariant
    holds, then a whole list costs no more than is left below the bound. -/
theorem total_add_le {cost : σ → α → Nat} {ok : α → Prop} {m : σ → Nat} {bound : Nat}
    (hpay : ∀ s a, I s → ok a → cost s a + m s ≤ m (f s a))
    (hkeep : ∀ s a, I s → I (f s a)) (hbound : ∀ s, I s → m s ≤ bound)
    (hs : I s) (has : ∀ a ∈ as, ok a) : total f cost s as + m s ≤ bound := by
  induction as generalizing s with
  | nil => simpa only [total, Nat.zero_add] using hbound s hs
  | cons a as ih =>
    have hstep := hpay s a hs (has a List.mem_cons_self)
    have hrest := ih (hkeep s a hs) fun b hb => has b (List.mem_cons_of_mem a hb)
    simp only [total]
    omega

/-- Steps with the listed properties have been made in the run, the first property of the list
    by the latest of them, each in the state that the run had reached. -/
def Happened (f : σ → α → σ) (s : σ) : List (σ → α → Prop) → List α → Prop
  | [], _ => True
  | P :: Ps, as => ∃ before a after,
      as = before ++ a :: after ∧ Happened f s Ps before ∧ P (before.foldl f s) a

/-- What has happened stays so in a longer run. -/
theorem Happened.append {Ps : List (σ → α → Prop)} (h : Happened f s Ps as) (bs : List α) :
    Happened f s Ps (as ++ bs) := by
  cases Ps with
  | nil => exact h
  | cons P Ps =>
    obtain ⟨before, a, after, rfl, hrest, hP⟩ := h
    exact ⟨before, a, after ++ bs, by simp, hrest, hP⟩

/-- The step just made is the latest one. -/
theorem Happened.snoc {Ps : List (σ → α → Prop)} {a : α} (h : Happened f s Ps as)
    (hP : P (as.foldl f s) a) : Happened f s (P :: Ps) (as ++ [a]) :=
  ⟨as, a, [], rfl, h, hP⟩

/-- A relation between the steps made so far and the state reached holds along every run if
    every further step keeps it. -/
theorem foldl_history {I : List α → σ → Prop} (hs : I [] s)
    (hkeep : ∀ as a, I as (as.foldl f s) → I (as ++ [a]) (f (as.foldl f s) a)) (as : List α) :
    I as (as.foldl f s) := by
  -- from the end of the list: the last step is made in the state that the others have reached
  induction as using List.reverseRecOn with
  | nil => exact hs
  | append_singleton as a ih =>
    rw [List.foldl_append]
    exact hkeep as a ih

end Total

end Ivy.Lts
