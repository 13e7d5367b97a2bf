import Mathlib.Data.List.Nodup
import Mathlib.Data.List.Pairwise

/-!
# Schedules

A schedule interleaves the operations of several agents on a shared state. Suppose that the agents
are put into some order, and that two operations commute whenever the agent of the later one comes
first in it. Then the agents can be run one after another in that order: the state at the end is
the same, and so is what every operation observes.
-/

namespace VenomDb.Schedule

variable {Op State Out Agent : Type} {step : Op → State → Out × State}

/-- Run operations, and note what each of them observes. -/
def run (step : Op → State → Out × State) : List Op → State → List (Op × Out) × State
  | [], state => ([], state)
  | op :: ops, state =>
      ((op, (step op state).1) :: (run step ops (step op state).2).1,
        (run step ops (step op state).2).2)

/-- Two operations that may be exchanged: the state is the same after them, and each of them
observes the same. -/
structure Commutes (step : Op → State → Out × State) (first second : Op) : Prop where
  ends : ∀ state, (step second (step first state).2).2 = (step first (step second state).2).2
  seenByFirst : ∀ state, (step first (step second state).2).1 = (step first state).1
  seenBySecond : ∀ state, (step second (step first state).2).1 = (step second state).1

/-- The operations of the agents, one agent after another. -/
def serial [DecidableEq Agent] (agent : Op → Agent) (order : List Agent) (ops : List Op) :
    List Op :=
  order.flatMap fun who => ops.filter fun op => agent op = who

section Run

variable {ops : List Op} {op : Op}

theorem run_cons (op : Op) (ops : List Op) (state : State) :
    run step (op :: ops) state =
      ((op, (step op state).1) :: (run step ops (step op state).2).1,
        (run step ops (step op state).2).2) := rfl

theorem run_append (first second : List Op) (state : State) :
    run step (first ++ second) state =
      ((run step first state).1 ++ (run step second (run step first state).2).1,
        (run step second (run step first state).2).2) := by
  induction first generalizing state with
  | nil => rfl
  | cons op first ih => rw [List.cons_append, run, ih, run, List.cons_append]

/-- An operation is put off until others are done that it commutes with. -/
theorem run_concat (commutes : ∀ other ∈ ops, Commutes step op other) (state : State) :
    run step (ops ++ [op]) state =
      ((run step ops (step op state).2).1 ++ [(op, (step op state).1)],
        (run step ops (step op state).2).2) := by
  induction ops generalizing state with
  | nil => rfl
  | cons other ops ih =>
      have passes := commutes other List.mem_cons_self
      have rest := ih (fun later inside => commutes later (List.mem_cons_of_mem _ inside))
        (step other state).2
      rw [List.cons_append, run, rest, run, passes.ends, passes.seenByFirst, passes.seenBySecond,
        List.cons_append]

/-- Some operations are done before the others, if they commute with those that they overtake. -/
theorem run_filter {isFirst : Op → Bool}
    (commutes : ops.Pairwise fun before after => isFirst before = false → isFirst after = true →
      Commutes step before after) (state : State) :
    (run step (ops.filter isFirst) state).1 =
        (run step ops state).1.filter (fun event => isFirst event.1) ∧
      run step (ops.filter fun op => !isFirst op) (run step (ops.filter isFirst) state).2 =
        ((run step ops state).1.filter (fun event => !isFirst event.1),
          (run step ops state).2) := by
  induction ops generalizing state with
  | nil => exact ⟨rfl, rfl⟩
  | cons op ops ih =>
      rcases List.pairwise_cons.mp commutes with ⟨passes, commutes⟩
      rcases ih commutes (step op state).2 with ⟨front, back⟩
      cases here : isFirst op with
      | true => simp [run, here, front, back]
      | false =>
          have overtaken : ∀ other ∈ ops.filter isFirst, Commutes step op other := by
            intro other inside
            rcases List.mem_filter.mp inside with ⟨inside, first⟩
            exact passes other inside here first
          have moved := run_concat overtaken state
          rw [run_append] at moved
          rcases Prod.mk.inj moved with ⟨events, ends⟩
          rcases List.append_inj' events rfl with ⟨same, last⟩
          obtain ⟨-, seen⟩ : op = op ∧ _ := by simpa [run] using last
          change (step op (run step (ops.filter isFirst) state).2).2 = _ at ends
          have skipped : (op :: ops).filter isFirst = ops.filter isFirst := by simp [here]
          have kept : (op :: ops).filter (fun op => !isFirst op) =
              op :: ops.filter fun op => !isFirst op := by simp [here]
          refine ⟨?_, ?_⟩
          · rw [skipped, same, front]
            simp [run, here]
          · rw [skipped, kept, run_cons op (ops.filter fun op => !isFirst op), seen, ends, back]
            simp [run, here]

end Run

section Serial

variable [DecidableEq Agent] {agent : Op → Agent} {order : List Agent} {ops : List Op}

/-- Who is not the next one in line keeps his place in what is left of the line. -/
theorem idxOf_lt_of_cons {who first second : Agent} (notFirst : first ≠ who)
    (notSecond : second ≠ who)
    (before : order.idxOf first < order.idxOf second) :
    (who :: order).idxOf first < (who :: order).idxOf second := by
  rw [List.idxOf_cons_ne _ (Ne.symm notFirst), List.idxOf_cons_ne _ (Ne.symm notSecond)]
  exact Nat.succ_lt_succ before

/-- Whom the line lacks is not missed in it. -/
theorem flatMap_filter_of_notMem {Item : Type} {key : Item → Agent} {who : Agent}
    (fresh : who ∉ order) (items : List Item) :
    (order.flatMap fun other =>
      (items.filter fun item => !decide (key item = who)).filter fun item =>
        decide (key item = other)) =
      order.flatMap fun other => items.filter fun item => decide (key item = other) := by
  apply List.flatMap_congr
  intro other inside
  rw [List.filter_filter]
  apply List.filter_congr
  intro item _
  have apart : other ≠ who := fun same => fresh (same ▸ inside)
  by_cases here : key item = other
  · simp [here, apart]
  · simp [here]

/-- The agents one after another: everything is observed as it was, and the state at the end is the
same. -/
theorem run_serial (nodup : order.Nodup) (complete : ∀ op ∈ ops, agent op ∈ order)
    (commutes : ops.Pairwise fun before after =>
      order.idxOf (agent after) < order.idxOf (agent before) → Commutes step before after)
    (state : State) :
    run step (serial agent order ops) state =
      (order.flatMap fun who => (run step ops state).1.filter fun event => agent event.1 = who,
        (run step ops state).2) := by
  induction order generalizing ops state with
  | nil =>
      obtain rfl : ops = [] := List.eq_nil_iff_forall_not_mem.mpr fun op inside => by
        simpa using complete op inside
      rfl
  | cons who order ih =>
      rcases List.nodup_cons.mp nodup with ⟨fresh, nodup⟩
      let isFirst (op : Op) : Bool := agent op = who
      have overtakes : ops.Pairwise fun before after =>
          isFirst before = false → isFirst after = true → Commutes step before after := by
        refine commutes.imp fun {before after} commutes notFirst first => commutes ?_
        simp only [isFirst, decide_eq_false_iff_not, decide_eq_true_eq] at notFirst first
        rw [first, List.idxOf_cons_self, List.idxOf_cons_ne _ (Ne.symm notFirst)]
        exact Nat.succ_pos _
      rcases run_filter overtakes state with ⟨front, back⟩
      have complete' : ∀ op ∈ ops.filter fun op => !isFirst op, agent op ∈ order := by
        intro op inside
        rcases List.mem_filter.mp inside with ⟨inside, notFirst⟩
        exact List.mem_of_ne_of_mem (by simpa [isFirst] using notFirst) (complete op inside)
      have commutes' : (ops.filter fun op => !isFirst op).Pairwise fun before after =>
          order.idxOf (agent after) < order.idxOf (agent before) → Commutes step before after := by
        refine (commutes.filter _).imp_of_mem
          fun {before after} isBefore isAfter commutes earlier => ?_
        have notBefore : agent before ≠ who := by
          simpa [isFirst] using (List.mem_filter.mp isBefore).2
        have notAfter : agent after ≠ who := by
          simpa [isFirst] using (List.mem_filter.mp isAfter).2
        exact commutes (idxOf_lt_of_cons notAfter notBefore earlier)
      have rest := ih nodup complete' commutes' (run step (ops.filter isFirst) state).2
      have split : serial agent (who :: order) ops =
          ops.filter isFirst ++ serial agent order (ops.filter fun op => !isFirst op) := by
        rw [serial, List.flatMap_cons, serial, flatMap_filter_of_notMem fresh]
      rw [split, run_append, front, rest, back, List.flatMap_cons, flatMap_filter_of_notMem fresh]

end Serial

end VenomDb.Schedule
