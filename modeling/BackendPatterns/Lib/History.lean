import Mathlib.Tactic.TypeStar

/-! # Histories and linearization points

A concurrent object is judged by its history: threads call operations, each
call takes effect at one instant (its linearization point), and returns. The
object is linearizable when the effects, in order, are a run of a sequential
object and every return reports an effect that happened inside its call. -/

namespace BackendPatterns.Lib.History

variable {ι Op Res σ : Type*}

inductive Event (ι Op Res : Type*)
  | call (i : ι) (op : Op)
  | effect (i : ι) (op : Op) (r : Res)
  | ret (i : ι) (op : Op) (r : Res)
  deriving DecidableEq, Repr

def Event.thread : Event ι Op Res → ι
  | .call i _ => i
  | .effect i _ _ => i
  | .ret i _ _ => i

/-- The events of one thread. -/
def project [DecidableEq ι] (i : ι) (h : List (Event ι Op Res)) : List (Event ι Op Res) :=
  h.filter fun e => e.thread = i

/-- The operations in the order they took effect, with their results. -/
def effects (h : List (Event ι Op Res)) : List (Op × Res) :=
  h.filterMap fun e => match e with
    | .effect _ op r => some (op, r)
    | _ => none

/-- Where a thread stands between its events. -/
inductive Phase (Op Res : Type*)
  | idle
  | called (op : Op)
  | done (op : Op) (r : Res)

/-- One thread's events and the phase they leave it in: every call takes effect
once, before its return and with the result it returns. -/
inductive Sequential (i : ι) : List (Event ι Op Res) → Phase Op Res → Prop
  | nil : Sequential i [] .idle
  | call {h : List (Event ι Op Res)} {op : Op} :
      Sequential i h .idle → Sequential i (h ++ [.call i op]) (.called op)
  | effect {h : List (Event ι Op Res)} {op : Op} {r : Res} :
      Sequential i h (.called op) → Sequential i (h ++ [.effect i op r]) (.done op r)
  | ret {h : List (Event ι Op Res)} {op : Op} {r : Res} :
      Sequential i h (.done op r) → Sequential i (h ++ [.ret i op r]) .idle

/-- The sequential object answers `ops` one by one and ends in the last state.
`spec s op = none` means that `op` has to wait in `s`. -/
def Replays (spec : σ → Op → Option (Res × σ)) : σ → List (Op × Res) → σ → Prop
  | s, [], t => s = t
  | s, e :: l, t => ∃ u, spec s e.1 = some (e.2, u) ∧ Replays spec u l t

structure Linearizable [DecidableEq ι] (spec : σ → Op → Option (Res × σ)) (init : σ)
    (h : List (Event ι Op Res)) : Prop where
  threads : ∀ i, ∃ p, Sequential i (project i h) p
  legal : ∃ s, Replays spec init (effects h) s

theorem project_snoc [DecidableEq ι] (i : ι) (h : List (Event ι Op Res)) (e : Event ι Op Res) :
    project i (h ++ [e]) = if e.thread = i then project i h ++ [e] else project i h := by
  unfold project
  rw [List.filter_append]
  split <;> simp_all

@[simp] theorem effects_append (h h' : List (Event ι Op Res)) :
    effects (h ++ h') = effects h ++ effects h' := List.filterMap_append

@[simp] theorem effects_call (i : ι) (op : Op) :
    effects [(.call i op : Event ι Op Res)] = [] := rfl

@[simp] theorem effects_effect (i : ι) (op : Op) (r : Res) :
    effects [(.effect i op r : Event ι Op Res)] = [(op, r)] := rfl

@[simp] theorem effects_ret (i : ι) (op : Op) (r : Res) :
    effects [(.ret i op r : Event ι Op Res)] = [] := rfl

variable {spec : σ → Op → Option (Res × σ)}

theorem replays_append {s t : σ} {l l' : List (Op × Res)} :
    Replays spec s (l ++ l') t ↔ ∃ u, Replays spec s l u ∧ Replays spec u l' t := by
  induction l generalizing s with
  | nil => simp [Replays]
  | cons e l ih =>
    simp only [List.cons_append, Replays, ih]
    constructor
    · intro hex
      obtain ⟨v, hv, u, hu, ht⟩ := hex
      exact ⟨u, ⟨v, hv, hu⟩, ht⟩
    · intro hex
      obtain ⟨u, ⟨v, hv, hu⟩, ht⟩ := hex
      exact ⟨v, hv, u, hu, ht⟩

theorem Replays.snoc {s t u : σ} {l : List (Op × Res)} {op : Op} {r : Res}
    (h : Replays spec s l t) (hs : spec t op = some (r, u)) :
    Replays spec s (l ++ [(op, r)]) u :=
  replays_append.mpr ⟨t, h, u, hs, rfl⟩

theorem snoc_eq_append_cons {α : Type*} {l l₁ l₂ : List α} {e x : α}
    (h : l ++ [e] = l₁ ++ x :: l₂) :
    (l = l₁ ∧ e = x) ∨ ∃ l₃, l = l₁ ++ x :: l₃ := by
  rcases List.eq_nil_or_concat l₂ with rfl | ⟨l₃, y, rfl⟩
  · obtain ⟨hl, he⟩ := List.append_inj' h rfl
    exact .inl ⟨hl, by simpa using he⟩
  · have h' : l ++ [e] = (l₁ ++ x :: l₃) ++ [y] := by simpa using h
    exact .inr ⟨l₃, (List.append_inj' h' rfl).1⟩

/-- A return reports the effect its own call had just before it. -/
theorem Sequential.ret_effect {i : ι} {l : List (Event ι Op Res)} {p : Phase Op Res}
    (h : Sequential i l p) {l₁ l₂ : List (Event ι Op Res)} {op : Op} {r : Res}
    (he : l = l₁ ++ .ret i op r :: l₂) :
    ∃ l₀, l₁ = l₀ ++ [.call i op, .effect i op r] := by
  induction h generalizing l₂ with
  | nil => simp at he
  | call _ ih =>
    rcases snoc_eq_append_cons he with ⟨_, hx⟩ | ⟨l₃, hl⟩
    · cases hx
    · exact ih hl
  | effect _ ih =>
    rcases snoc_eq_append_cons he with ⟨_, hx⟩ | ⟨l₃, hl⟩
    · cases hx
    · exact ih hl
  | ret hd ih =>
    rcases snoc_eq_append_cons he with ⟨hl, hx⟩ | ⟨l₃, hl⟩
    · subst hl
      cases hx
      cases hd with
      | effect hc =>
        cases hc with
        | @call l₀ => exact ⟨l₀, by simp⟩
    · exact ih hl

end BackendPatterns.Lib.History
