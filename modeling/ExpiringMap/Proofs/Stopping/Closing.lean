import ExpiringMap.Proofs.Stopping.Phases

/-!
# Maps that are being stopped keep no job

A stop takes the job of its map before it cancels it, and a scheduler may run the job in the course
of that.  Whatever is done meanwhile, calls of hooks included, the map is still being stopped
afterwards and keeps no job (`lasting_staysClosing`): only a start keeps one, and a start gets
through at no map but one that is stopped.
-/

namespace ExpiringMap

open Operation Program

variable {n : Nat} {S K V α : Type}

namespace Deployment

/-- Whether a map is being stopped and keeps no job any more. -/
structure Closing (deployment : Deployment n S K V) (map : Fin n) : Prop where
  phase : (deployment.state map).phase = .stopping
  job : (deployment.state map).job = none

/-- Whether a map that is being stopped and keeps no job is left like that. -/
def StaysClosing (map : Fin n) (earlier later : Deployment n S K V) : Prop :=
  earlier.Closing map → later.Closing map

variable {earlier later : Deployment n S K V} {map : Fin n}

theorem StaysClosing.of_state (h : later.state map = earlier.state map) :
    StaysClosing map earlier later := fun hclosing =>
  ⟨by rw [h, hclosing.phase], by rw [h, hclosing.job]⟩

theorem staysClosing_onMap [DecidableEq K] (enumeration : Fin n → Enumeration K V)
    (deployment : Deployment n S K V) {other : Fin n} {act : MapAct K V}
    (hact : other = map → act.OutsideCalls) :
    StaysClosing map deployment (deployment.onMap enumeration other act).2 := by
  by_cases hother : other = map
  · subst hother
    obtain ⟨hphase, hjob, -⟩ := (hact rfl).leaves (deployment.state other)
    rintro ⟨hstopping, hnone⟩
    rw [hnone, or_self] at hjob
    constructor
    case phase => rw [state_onMap, if_pos rfl, hphase, hstopping]
    case job => rw [state_onMap, if_pos rfl, hjob]
  · refine .of_state ?_
    rw [state_onMap, if_neg (Ne.symm hother)]

end Deployment

section Maintaining

open Deployment

variable [DecidableEq K] {plan : Plan n S K V} {consultation : Consultation n S K V} {map : Fin n}

theorem abides_staysClosing
    (hconsult : ∀ other hook, Keeps (StaysClosing map) (plan.consult consultation other hook)) :
    Abides plan consultation (StaysClosing map) where
  refl _ := id
  trans h h' := h' ∘ h
  respond {step} hstep deployment := by
    cases step with
    | consult other hook => exact hconsult other hook deployment
    | act act =>
        rcases deployment.aside_perform plan.enumeration act with haside | ⟨other, done, rfl⟩
        · exact .of_state (haside.state map)
        · exact deployment.staysClosing_onMap plan.enumeration fun _ => hstep

/-- A lifecycle call that gets through only in another phase does not get through at a map that is
being stopped. -/
theorem maintains_claim {call : LifecycleCall} {source target : Phase}
    (hsource : source ≠ .stopping) {next : Except Error Unit → Operation n K V α}
    (hnext : ∀ error, ∃ result, next (.error error) = .done result) :
    Operation.Maintains plan consultation (StaysClosing map)
      ((shift map call source target).bind next) := by
  intro deployment
  obtain ⟨error, later, heq, hlater⟩ | ⟨begun, -, hphase, -⟩ :=
    deployment.onMap_cases_shift plan.enumeration map call source target
  · have hsame : later.affairs.of map = deployment.affairs.of map := by rw [hlater]
    have hstays : StaysClosing map deployment later := fun hclosing =>
      ⟨(congrArg Affair.phase hsame).trans hclosing.phase,
        (congrArg Affair.job hsame).trans hclosing.job⟩
    obtain ⟨result, hdone⟩ := hnext error
    refine throughout_onMap heq hstays ?_
    rw [hdone]
    exact throughout_done hstays
  · have hvacuous : ∀ later, StaysClosing map deployment later := fun _ hclosing =>
      absurd (hphase.symm.trans hclosing.phase) hsource
    exact ⟨hvacuous _, fun _ _ => hvacuous _⟩

theorem composes_staysClosing
    (hconsult : ∀ other hook, Keeps (StaysClosing map) (plan.consult consultation other hook)) :
    ComposesCalls fun _ (operation : Operation n K V _) =>
      operation.Maintains plan consultation (StaysClosing map) := by
  have habides := abides_staysClosing hconsult
  -- at another map a lifecycle call may do what it likes
  have hother : ∀ {other}, other ≠ map → ∀ act : MapAct K V,
      (onMap other act).Maintains plan consultation (StaysClosing map) := fun hne act =>
    maintains_act fun deployment =>
      deployment.staysClosing_onMap plan.enumeration fun heq => absurd heq hne
  refine habides.calls (fun other interval => ?_) fun other => ?_
  · rcases eq_or_ne other map with rfl | hne
    · exact maintains_claim (by decide) fun error => ⟨_, rfl⟩
    · exact habides.runs.start (fun act _ => hother hne act) interval
  · rcases eq_or_ne other map with rfl | hne
    · exact maintains_claim (by decide) fun error => ⟨_, rfl⟩
    · exact habides.runs.stop (fun act _ => hother hne act)
        (habides.maintains (composes_outsideCalls.empty other))

end Maintaining

/-- Nothing that goes on makes a map that is being stopped keep a job, or ends that phase. -/
theorem lasting_staysClosing [DecidableEq K] (plan : Plan n S K V) (map : Fin n) :
    Lasting plan (Deployment.StaysClosing map) where
  refl _ := id
  trans h h' := h' ∘ h
  enter deployment other hook := .of_state ((deployment.aside_enter plan other hook).state map)
  resume deployment other call outcome remember :=
    .of_state ((deployment.aside_resume other call outcome remember).state map)
  leave deployment other hook verdict :=
    .of_state ((deployment.aside_leave other hook verdict).state map)
  gather deployment := .of_state (deployment.aside_gather.state map)
  operation _ hconsult other request :=
    (composes_staysClosing hconsult).serve (plan.settings other) other request

end ExpiringMap
