import BackendPatterns.Lib.Threads

/-! # Condition variables

A thread inside `cv.wait(lock, pred)` is about to take the lock for its first
check, asleep, or woken and about to take the lock again. Notifications move
sleeping threads to woken ones; whether a wake-up can be lost is a question
about how many of each there are (`Covered`). -/

namespace BackendPatterns.Lib.CondVar
open BackendPatterns.Lib.Threads

/-- Where a thread stands inside a wait. -/
inductive Wait
  | entry
  | parked
  | woken
  deriving DecidableEq, Repr

/-- Positions that may be inside a wait on a condition variable of `γ`. -/
class Waiter (π : Type*) (γ : outParam Type*) where
  waiting : π → Option (γ × Wait)
  wake : π → π
  waiting_wake : ∀ {p c}, waiting p = some (c, .parked) → waiting (wake p) = some (c, .woken)

variable {ι π γ : Type*} [Waiter π γ]

def Parked (c : γ) (p : π) : Prop := Waiter.waiting p = some (c, Wait.parked)

def Woken (c : γ) (p : π) : Prop := Waiter.waiting p = some (c, Wait.woken)

instance [DecidableEq γ] (c : γ) : DecidablePred (Parked (π := π) c) :=
  fun p => inferInstanceAs (Decidable (Waiter.waiting p = some (c, Wait.parked)))

instance [DecidableEq γ] (c : γ) : DecidablePred (Woken (π := π) c) :=
  fun p => inferInstanceAs (Decidable (Waiter.waiting p = some (c, Wait.woken)))

theorem Parked.woken_wake {c : γ} {p : π} (h : Parked c p) : Woken c (Waiter.wake p) :=
  Waiter.waiting_wake h

theorem Woken.not_parked {c d : γ} {p : π} (h : Woken c p) : ¬ Parked d p := by
  intro hp
  have := h.symm.trans hp
  simp at this

theorem Parked.unique {c d : γ} {p : π} (h : Parked c p) (h' : Parked d p) : c = d := by
  have := h.symm.trans h'
  simpa using this

theorem Woken.unique {c d : γ} {p : π} (h : Woken c p) (h' : Woken d p) : c = d := by
  have := h.symm.trans h'
  simpa using this

variable [DecidableEq γ]

/-- `notify_all`: wake every sleeper. -/
def notifyAll (c : γ) (f : ι → π) (i : ι) : π :=
  if Parked c (f i) then Waiter.wake (f i) else f i

theorem notifyAll_not_parked (c : γ) (f : ι → π) (i : ι) : ¬ Parked c (notifyAll c f i) := by
  unfold notifyAll
  split
  · rename_i h
    exact h.woken_wake.not_parked
  · assumption

theorem notifyAll_parked_iff {c d : γ} (hne : d ≠ c) (f : ι → π) (i : ι) :
    Parked d (notifyAll c f i) ↔ Parked d (f i) := by
  unfold notifyAll
  split
  · rename_i h
    exact ⟨fun h' => absurd h' h.woken_wake.not_parked, fun h' => absurd (h'.unique h) hne⟩
  · rfl

variable [Fintype ι]

/-! ## Counting sleepers -/

def parked (c : γ) (f : ι → π) : Nat := count (Parked c) f

def woken (c : γ) (f : ι → π) : Nat := count (Woken c) f

theorem parked_pos_iff {c : γ} {f : ι → π} : 0 < parked c f ↔ ∃ i, Parked c (f i) :=
  count_pos_iff

theorem woken_eq_zero_iff {c : γ} {f : ι → π} : woken c f = 0 ↔ ∀ i, ¬ Woken c (f i) :=
  count_eq_zero_iff

/-- No wake-up on `c` is lost: while somebody sleeps, what is available does
not exceed the threads already woken plus the notifications still to come. -/
def Covered (c : γ) (f : ι → π) (pending avail : Nat) : Prop :=
  0 < parked c f → avail ≤ woken c f + pending

theorem covered_of_none {c : γ} {f : ι → π} (h : ∀ i, ¬ Parked c (f i)) (pending avail : Nat) :
    Covered c f pending avail := by
  intro hp
  obtain ⟨i, hi⟩ := parked_pos_iff.mp hp
  exact absurd hi (h i)

theorem covered_zero (c : γ) (f : ι → π) (pending : Nat) : Covered c f pending 0 :=
  fun _ => Nat.zero_le _

/-- What becomes available is announced by as many notifications to come. -/
theorem Covered.mono {c : γ} {f : ι → π} {pending avail pending' avail' : Nat}
    (h : Covered c f pending avail) (hle : avail' + pending ≤ avail + pending') :
    Covered c f pending' avail' := by
  intro hp
  have := h hp
  omega

/-- With nobody woken and nothing pending, a sleeper means nothing is available. -/
theorem Covered.eq_zero {c : γ} {f : ι → π} {avail : Nat} (h : Covered c f 0 avail) {i : ι}
    (hi : Parked c (f i)) (hw : ∀ j, ¬ Woken c (f j)) : avail = 0 := by
  have := h (parked_pos_iff.mpr ⟨i, hi⟩)
  rw [woken_eq_zero_iff.mpr hw] at this
  omega

variable [DecidableEq ι]

/-! ## Notifying one sleeper -/

/-- `notify_one`: wake the chosen sleeper, or nobody when nobody sleeps. -/
def notifyOne (c : γ) (target : Option ι) (f : ι → π) : Option (ι → π) :=
  match target with
  | some j => if Parked c (f j) then some (Function.update f j (Waiter.wake (f j))) else none
  | none => if ∃ i, Parked c (f i) then none else some f

theorem notifyOne_cases {c : γ} {target : Option ι} {f g : ι → π}
    (h : notifyOne c target f = some g) :
    (g = f ∧ ∀ i, ¬ Parked c (f i)) ∨
      ∃ j, Parked c (f j) ∧ g = Function.update f j (Waiter.wake (f j)) := by
  cases target with
  | none =>
    simp only [notifyOne, Option.ite_none_left_eq_some, Option.some.injEq, not_exists] at h
    exact .inl ⟨h.2.symm, h.1⟩
  | some j =>
    simp only [notifyOne, Option.ite_none_right_eq_some, Option.some.injEq] at h
    exact .inr ⟨j, h.1, h.2.symm⟩

/-- A notification puts nobody to sleep. -/
theorem notifyOne_parked {c d : γ} {target : Option ι} {f g : ι → π}
    (h : notifyOne c target f = some g) {i : ι} (hi : Parked d (g i)) : Parked d (f i) := by
  rcases notifyOne_cases h with ⟨rfl, _⟩ | ⟨j, hj, rfl⟩
  · exact hi
  · by_cases hij : i = j
    · subst hij
      rw [Function.update_self] at hi
      exact absurd hi hj.woken_wake.not_parked
    · rwa [Function.update_of_ne hij] at hi

/-- A notification moves only sleepers. -/
theorem notifyOne_eq {c : γ} {target : Option ι} {f g : ι → π}
    (h : notifyOne c target f = some g) {i : ι} (hi : ¬ Parked c (f i)) : g i = f i := by
  rcases notifyOne_cases h with ⟨rfl, _⟩ | ⟨j, hj, rfl⟩
  · rfl
  · have hij : i ≠ j := fun hij => hi (hij ▸ hj)
    rw [Function.update_of_ne hij]

/-- Whoever is not woken after a notification did not move. -/
theorem notifyOne_of_not_woken {c : γ} {target : Option ι} {f g : ι → π}
    (h : notifyOne c target f = some g) {i : ι} (hi : ¬ Woken c (g i)) : f i = g i := by
  rcases notifyOne_cases h with ⟨rfl, _⟩ | ⟨j, hj, rfl⟩
  · rfl
  · have hij : i ≠ j := by
      intro heq
      subst heq
      rw [Function.update_self] at hi
      exact hi hj.woken_wake
    rw [Function.update_of_ne hij]

/-- A notification can always be delivered, to somebody or to nobody. -/
theorem notifyOne_total (c : γ) (f : ι → π) : ∃ target g, notifyOne c target f = some g := by
  by_cases h : ∃ i, Parked c (f i)
  · obtain ⟨j, hj⟩ := h
    exact ⟨some j, Function.update f j (Waiter.wake (f j)), by simp [notifyOne, hj]⟩
  · exact ⟨none, f, by simp [notifyOne, h]⟩

/-- A thread that neither was nor becomes a sleeper on `c` moves, while the
availability and the outstanding notifications change in balance. -/
theorem Covered.move {c : γ} {f : ι → π} {pending avail pending' avail' : Nat} {i : ι} {b : π}
    (h : Covered c f pending avail) (hf : ¬ Parked c (f i)) (hb : ¬ Parked c b)
    (hle : avail' + pending + (if Woken c (f i) then 1 else 0) ≤
      avail + pending' + (if Woken c b then 1 else 0)) :
    Covered c (Function.update f i b) pending' avail' := by
  intro hp
  have hpk := count_update (Parked c) f i b
  have hwk := count_update (Woken c) f i b
  simp only [if_neg hf, if_neg hb] at hpk
  have := h (by unfold parked at *; omega)
  unfold woken at *
  omega

theorem wake_counts {c : γ} {f : ι → π} {j : ι} (hj : Parked c (f j)) :
    parked c (Function.update f j (Waiter.wake (f j))) + 1 = parked c f ∧
      woken c (Function.update f j (Waiter.wake (f j))) = woken c f + 1 := by
  have hpk := count_update (Parked c) f j (Waiter.wake (f j))
  have hwk := count_update (Woken c) f j (Waiter.wake (f j))
  have hnw : ¬ Woken c (f j) := fun hw => hw.not_parked hj
  simp only [if_pos hj, if_neg hj.woken_wake.not_parked] at hpk
  simp only [if_neg hnw, if_pos hj.woken_wake] at hwk
  unfold parked woken
  omega

/-- Waking one sleeper, notified or spurious, keeps the cover. -/
theorem Covered.wake {c d : γ} {f : ι → π} {pending avail : Nat} {j : ι}
    (h : Covered c f pending avail) (hj : Parked d (f j)) :
    Covered c (Function.update f j (Waiter.wake (f j))) pending avail := by
  by_cases hcd : c = d
  · subst hcd
    intro hp
    obtain ⟨hpk, hwk⟩ := wake_counts hj
    have := h (by omega)
    omega
  · have hp : ¬ Parked c (f j) := fun hp => hcd (hp.unique hj)
    have hw : ¬ Woken c (f j) := fun hw => hw.not_parked hj
    have hw' : ¬ Woken c (Waiter.wake (f j)) := fun hw => hcd (hw.unique hj.woken_wake)
    exact h.move hp hj.woken_wake.not_parked (by simp [hw, hw'])

/-- Delivering one outstanding notification keeps the cover: either it woke a
sleeper or there was none. -/
theorem Covered.notifyOne {c : γ} {f g : ι → π} {target : Option ι} {pending avail : Nat}
    (h : Covered c f (pending + 1) avail) (hn : notifyOne c target f = some g) :
    Covered c g pending avail := by
  rcases notifyOne_cases hn with ⟨rfl, hnone⟩ | ⟨j, hj, rfl⟩
  · exact covered_of_none hnone _ _
  · intro hp
    obtain ⟨hpk, hwk⟩ := wake_counts hj
    have := h (by omega)
    omega

/-- A notification on another condition variable does not touch the cover. -/
theorem Covered.notifyOne_other {c d : γ} {f g : ι → π} {target : Option ι} {pending avail : Nat}
    (h : Covered c f pending avail) (hn : CondVar.notifyOne d target f = some g) :
    Covered c g pending avail := by
  rcases notifyOne_cases hn with ⟨rfl, _⟩ | ⟨j, hj, rfl⟩
  · exact h
  · exact h.wake hj

end BackendPatterns.Lib.CondVar
