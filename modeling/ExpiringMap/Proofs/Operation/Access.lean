import ExpiringMap.Proofs.Acts

/-!
# What reading and writing entries comes to

Nobody comes in between here, so each of these operations is one step of the store with one
reading of the clock.
-/

namespace ExpiringMap.Operation

variable {n : Nat} {S K V : Type} [DecidableEq K] (plan : Plan n S K V) (depth : Nat)
  (map : Fin n) (key : K) (value : V) (timeout : Duration) (deployment : Deployment n S K V)

/-- What is done with the result of an operation does not change the deployment any more. -/
theorem run_bind_done {α β : Type} (operation : Operation n K V α)
    (finish : α → β) :
    plan.run depth (operation.bind fun result => .done (finish result)) deployment =
      (finish (plan.run depth operation deployment).1,
        (plan.run depth operation deployment).2) :=
  Program.run_bind ..

theorem run_get :
    let left := plan.run depth (get map key) deployment
    let read := (deployment.state map).store.read key (deployment.onClock .read).1
    left.1 = read.1 ∧ (left.2.state map).store = read.2 := by
  simp [get, guarded, lock, unlock, read, now, onMap, onClock, Plan.run, Plan.respond,
    Deployment.perform, MapAct.answer, MapAct.apply]

theorem run_put :
    let left := plan.run depth (put map key value timeout) deployment
    let store := (deployment.state map).store
    let entry : Entry K V := { key, value, timeout, seq := store.next }
    let inserted := store.reserve.2.insert (entry.touch (deployment.onClock .read).1)
    left.1 = inserted.1 ∧ (left.2.state map).store = inserted.2 := by
  simp [put, guarded, lock, unlock, reserve, insert, now, onMap, onClock, Plan.run, Plan.respond,
    Deployment.perform, MapAct.answer, MapAct.apply, Store.reserve]

theorem run_putIfAbsent :
    let left := plan.run depth (putIfAbsent map key value timeout) deployment
    let store := (deployment.state map).store
    let entry : Entry K V := { key, value, timeout, seq := store.next }
    let inserted := store.reserve.2.insertIfAbsent (entry.touch (deployment.onClock .read).1)
    left.1 = inserted.1 ∧ (left.2.state map).store = inserted.2 := by
  simp [putIfAbsent, guarded, lock, unlock, reserve, insertIfAbsent, now, onMap, onClock, Plan.run,
    Plan.respond, Deployment.perform, MapAct.answer, MapAct.apply, Store.reserve]

theorem run_remove :
    let left := plan.run depth (remove map key) deployment
    let removed := (deployment.state map).store.remove key
    left.1 = removed.1 ∧ (left.2.state map).store = removed.2 := by
  simp [remove, erase, guarded, lock, unlock, onMap, Plan.run, Plan.respond, Deployment.perform,
    MapAct.answer, MapAct.apply]

theorem run_size :
    let left := plan.run depth (size map) deployment
    left.1 = (deployment.state map).store.size ∧
      (left.2.state map).store = (deployment.state map).store := by
  simp [size, onMap, Plan.run, Plan.respond, Deployment.perform, MapAct.answer, MapAct.apply]

end ExpiringMap.Operation
