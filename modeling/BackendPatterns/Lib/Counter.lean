/-! # Counters of type `int`

Such a counter is only read and incremented. Incrementing the largest `int` is
undefined, so the value is lost there. The models go on without it, but the run of a
program that has done so is undefined as a whole: what is said of a run is said of one
in which every counter has a value. -/

namespace BackendPatterns.Lib

structure Counter where
  value : Option Int

namespace Counter

/-- `int counter{0}`. -/
def zero : Counter := ⟨some 0⟩

/-- `++` on an `int`. -/
def increment (v : Int) : Option Int := if v < 2147483647 then some (v + 1) else none

def incr (c : Counter) : Counter := ⟨c.value.bind increment⟩

/-- Several increments. -/
def plus (c : Counter) : Nat → Counter
  | 0 => c
  | k + 1 => c.incr.plus k

@[simp] theorem incr_plus (c : Counter) (k : Nat) : c.incr.plus k = c.plus (k + 1) := rfl

theorem plus_plus (c : Counter) (j k : Nat) : (c.plus j).plus k = c.plus (j + k) := by
  induction j generalizing c with
  | zero => rw [Nat.zero_add]; rfl
  | succ j ih => rw [Nat.succ_add]; exact ih c.incr

/-- Up to the largest `int`, the value has grown by the number of increments. -/
theorem plus_value {c : Counter} {v : Int} {k : Nat} (hv : c.value = some v)
    (hk : v + k ≤ 2147483647) : (c.plus k).value = some (v + k) := by
  induction k generalizing c v with
  | zero =>
    rw [Int.natCast_zero, Int.add_zero]
    exact hv
  | succ k ih =>
    have hincr : c.incr.value = some (v + 1) := by
      have hlt : v < 2147483647 := by omega
      simp only [incr, hv, Option.bind_some, increment, if_pos hlt]
    have hplus := ih hincr (by omega)
    rw [← incr_plus, hplus]
    congr 1
    omega

theorem plus_lost {c : Counter} (hv : c.value = none) (k : Nat) : (c.plus k).value = none := by
  induction k generalizing c with
  | zero => exact hv
  | succ k ih => exact ih (by rw [incr, hv]; rfl)

/-- One increment more loses it. -/
theorem plus_overflow {c : Counter} {v : Int} {k : Nat} (hv : c.value = some v)
    (hk : 2147483647 < v + k) (hle : v ≤ 2147483647) : (c.plus k).value = none := by
  induction k generalizing c v with
  | zero => omega
  | succ k ih =>
    rw [← incr_plus]
    by_cases hlt : v < 2147483647
    · have hincr : c.incr.value = some (v + 1) := by
        simp only [incr, hv, Option.bind_some, increment, if_pos hlt]
      exact ih hincr (by omega) (by omega)
    · have hincr : c.incr.value = none := by
        simp only [incr, hv, Option.bind_some, increment, if_neg hlt]
      exact plus_lost hincr k

/-- The `int` has grown by `k`, or would have to pass the largest one. -/
def Grown (c c' : Counter) (k : Nat) : Prop :=
  ∀ v, c.value = some v → v ≤ 2147483647 →
    c'.value = if v + k ≤ 2147483647 then some (v + k) else none

theorem grown_plus (c : Counter) (k : Nat) : Grown c (c.plus k) k := by
  intro v hv hle
  split
  · rename_i hk
    exact plus_value hv hk
  · rename_i hk
    exact plus_overflow hv (by omega) hle

end Counter

end BackendPatterns.Lib
