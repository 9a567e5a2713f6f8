import Mathlib.Data.Multiset.AddSub

/-!
# Tasks over a shared memory

Any number of tasks run over a shared memory. A task takes one atomic step at a time, after which it
goes on as some task or has returned; between two steps of a task, others may start and take steps
(`Tasks.Reaches`). Schedules may be restricted (`Tasks.ReachesWhere`). What holds at the start and is
kept when a task starts and when a task takes a step holds in every interleaving
(`Tasks.ReachesWhere.invariant`, `Tasks.Reaches.invariant`).
-/

namespace Exfer.Lib

/-- What tasks may do: start, and take the next step. -/
structure Tasks (Mem Task : Type*) where
  /-- A task may start, and the memory is as it is then. -/
  starts : Mem → Mem → Task → Prop
  /-- A task may take a step and go on as the tasks given, which are none once it has returned. -/
  steps : Mem → Task → Mem → Multiset Task → Prop

namespace Tasks

variable {Mem Task : Type*} (T : Tasks Mem Task)

/-- The memory and the tasks in progress, after steps in some order that meets a condition: one on
the tasks in progress when a task starts, and one on the memory and the other tasks when a task takes
a step. -/
inductive ReachesWhere (mayStart : Multiset Task → Task → Prop)
    (mayStep : Mem → Multiset Task → Task → Prop) (start : Mem) : Mem → Multiset Task → Prop where
  | start : ReachesWhere mayStart mayStep start start 0
  | spawn {m m' : Mem} {t : Task} {ts : Multiset Task} (h : ReachesWhere mayStart mayStep start m ts)
      (hstart : T.starts m m' t) (hmay : mayStart ts t) :
      ReachesWhere mayStart mayStep start m' (t ::ₘ ts)
  | step {m m' : Mem} {t : Task} {ts next : Multiset Task}
      (h : ReachesWhere mayStart mayStep start m (t ::ₘ ts)) (hstep : T.steps m t m' next)
      (hmay : mayStep m ts t) : ReachesWhere mayStart mayStep start m' (next + ts)

/-- The memory and the tasks in progress, after steps in any order. -/
def Reaches (start : Mem) : Mem → Multiset Task → Prop :=
  T.ReachesWhere (fun _ _ => True) (fun _ _ _ => True) start

variable {T} {m₀ m m' : Mem} {t : Task} {ts next : Multiset Task}
  {mayStart : Multiset Task → Task → Prop} {mayStep : Mem → Multiset Task → Task → Prop}
  {Inv : Mem → Multiset Task → Prop}

/-- What starts and steps keep holds in every interleaving that meets the condition. -/
theorem ReachesWhere.invariant (h : T.ReachesWhere mayStart mayStep m₀ m ts) (hinit : Inv m₀ 0)
    (hspawn : ∀ m m' t ts, Inv m ts → T.starts m m' t → mayStart ts t → Inv m' (t ::ₘ ts))
    (hstep : ∀ m m' t ts next, Inv m (t ::ₘ ts) → T.steps m t m' next → mayStep m ts t → Inv m'
      (next + ts)) : Inv m ts := by
  induction h with
  | start => exact hinit
  | spawn _ hstart hmay ih => exact hspawn _ _ _ _ ih hstart hmay
  | step _ htask hmay ih => exact hstep _ _ _ _ _ ih htask hmay

/-- An interleaving that meets a condition is one. -/
theorem ReachesWhere.reaches (h : T.ReachesWhere mayStart mayStep m₀ m ts) : T.Reaches m₀ m ts := by
  induction h with
  | start => exact .start
  | spawn _ hstart _ ih => exact .spawn ih hstart trivial
  | step _ htask _ ih => exact .step ih htask trivial

theorem Reaches.start : T.Reaches m m 0 :=
  ReachesWhere.start

theorem Reaches.spawn (h : T.Reaches m₀ m ts) (hstart : T.starts m m' t) : T.Reaches m₀ m' (t ::ₘ ts) :=
  ReachesWhere.spawn h hstart trivial

theorem Reaches.step (h : T.Reaches m₀ m (t ::ₘ ts)) (hstep : T.steps m t m' next) : T.Reaches m₀ m' (next + ts) :=
  ReachesWhere.step h hstep trivial

/-- What starts and steps keep holds in every interleaving. -/
theorem Reaches.invariant (h : T.Reaches m₀ m ts) (hinit : Inv m₀ 0)
    (hspawn : ∀ m m' t ts, Inv m ts → T.starts m m' t → Inv m' (t ::ₘ ts))
    (hstep : ∀ m m' t ts next, Inv m (t ::ₘ ts) → T.steps m t m' next → Inv m' (next + ts)) : Inv m ts :=
  ReachesWhere.invariant h hinit (fun m m' t ts hinv hstart _ => hspawn m m' t ts hinv hstart)
    fun m m' t ts next hinv htask _ => hstep m m' t ts next hinv htask

end Tasks

end Exfer.Lib
