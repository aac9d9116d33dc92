import ExpiringMap.Proofs.Jobs.Affairs

/-!
# Orderly affairs

While no lifecycle call is in progress at a map, the map is engaged or idle.  An engaged map is
started and keeps the job that it has scheduled last, which nobody has cancelled; an idle one is
stopped, or nobody holds it any more, and it keeps no job.  All other jobs that a map has ever
scheduled it has cancelled, once.  Affairs are orderly if all maps are like that, those apart at
which a lifecycle call is in progress, and the table of the scheduler agrees.

Calls of hooks may come in between the steps of a lifecycle call.  What they leave to that call is
put down in `Affairs.Spares`: wherever a lifecycle call is in progress, phase, jobs and
cancellations stay as they are; elsewhere none is left in progress; and the jobs that are new are
those of starts that have succeeded.
-/

namespace ExpiringMap

variable {n : Nat}

/-- Whether a lifecycle call is in progress in a phase. -/
def Phase.InTransit : Phase → Prop
  | starting | stopping => True
  | stopped | started => False

namespace Affairs

/-- A map is started, keeps its latest job and has cancelled all others. -/
structure Engaged (affairs : Affairs n) (map : Fin n) : Prop where
  phase : (affairs.of map).phase = .started
  held : (affairs.of map).IsHeld
  jobs : ∃ id earlier, (affairs.of map).job = some id ∧ (affairs.of map).jobs = id :: earlier ∧
    affairs.cancellers id = [] ∧ ∀ other ∈ earlier, affairs.cancellers other = [map]

/-- A map is stopped or gone, keeps no job and has cancelled all it has scheduled. -/
structure Idle (affairs : Affairs n) (map : Fin n) : Prop where
  phase : (affairs.of map).IsHeld → (affairs.of map).phase = .stopped
  job : (affairs.of map).job = none
  jobs : ∀ id ∈ (affairs.of map).jobs, affairs.cancellers id = [map]

def Settled (affairs : Affairs n) (map : Fin n) : Prop := affairs.Engaged map ∨ affairs.Idle map

/-- The table of the scheduler agrees with what the maps have done. -/
structure Recorded (affairs : Affairs n) : Prop where
  owned : ∀ map id, id ∈ (affairs.of map).jobs ↔ affairs.owners[id]? = some map
  fresh : ∀ id, affairs.owners.length ≤ id → affairs.cancellers id = []
  marked : ∀ id, affairs.isCancelled id = !(affairs.cancellers id).isEmpty

structure Orderly (affairs : Affairs n) : Prop extends affairs.Recorded where
  used : ∀ map, (affairs.of map).phase.InTransit → 0 < (affairs.of map).uses
  settled : ∀ map, ¬ (affairs.of map).phase.InTransit → affairs.Settled map

/-- What lies between the affairs before and after something in the course of which maps have been
started with these jobs, the latest last. -/
structure Spares (earlier : Affairs n) (started : Fin n → List Nat) (later : Affairs n) :
    Prop where
  jobs : ∀ map, (later.of map).jobs = (started map).reverse ++ (earlier.of map).jobs
  inTransit : ∀ map, (later.of map).phase.InTransit ↔ (earlier.of map).phase.InTransit
  phase : ∀ map, (earlier.of map).phase.InTransit →
    (later.of map).phase = (earlier.of map).phase
  job : ∀ map, (earlier.of map).phase.InTransit → (later.of map).job = (earlier.of map).job
  started : ∀ map, (earlier.of map).phase.InTransit → started map = []
  cancellers : ∀ map, (earlier.of map).phase.InTransit → ∀ id ∈ (earlier.of map).jobs,
    later.cancellers id = earlier.cancellers id

/-- What lies between the affairs before and after whole calls, which take no use that they do not
give up. -/
structure Follows (earlier : Affairs n) (started : Fin n → List Nat) (later : Affairs n) : Prop
    extends earlier.Spares started later where
  uses : ∀ map, (later.of map).uses = (earlier.of map).uses

variable {affairs earlier later : Affairs n} {map : Fin n} {id : Nat}

/-! ## Small changes of orderly affairs -/

/-- Whether a map is settled depends on its own affair and on its own jobs. -/
theorem Settled.congr (h : earlier.Settled map) (hof : later.of map = earlier.of map)
    (hcancellers : ∀ id ∈ (earlier.of map).jobs, later.cancellers id = earlier.cancellers id) :
    later.Settled map := by
  rcases h with ⟨hphase, hheld, id, others, hjob, hjobs, hid, hothers⟩ | ⟨hphase, hjob, hjobs⟩
  · rw [hjobs] at hcancellers
    refine .inl ⟨hof ▸ hphase, hof ▸ hheld, id, others, hof ▸ hjob, hof ▸ hjobs, ?_, ?_⟩
    · rw [hcancellers id (List.mem_cons_self ..), hid]
    · intro other hother
      rw [hcancellers other (List.mem_cons_of_mem _ hother), hothers other hother]
  · refine .inr ⟨hof ▸ hphase, hof ▸ hjob, fun id hid => ?_⟩
    rw [hof] at hid
    rw [hcancellers id hid, hjobs id hid]

namespace Recorded

/-- Something is done in the affair of a map that adds no job. -/
theorem change (h : affairs.Recorded) {act : Affair → Affair}
    (hjobs : (act (affairs.of map)).jobs = (affairs.of map).jobs) :
    (affairs.change map act).Recorded where
  owned other id := by
    rw [of_change, owners_change, ← h.owned other id]
    split
    · next heq => rw [hjobs, heq]
    · rfl
  fresh := h.fresh
  marked := h.marked

theorem schedule (h : affairs.Recorded) (map : Fin n) : (affairs.schedule map).Recorded where
  owned other id := by
    have hearlier := h.owned other id
    rw [of_schedule, owners_schedule]
    -- the new job gets the first free number, so earlier jobs and free numbers are told by it
    rcases Nat.lt_trichotomy id affairs.owners.length with hlt | rfl | hgt
    · rw [List.getElem?_append_left hlt, ← hearlier]
      split
      · next heq => simp [heq, Nat.ne_of_lt hlt]
      · rfl
    · rw [List.getElem?_concat_length]
      rw [List.getElem?_eq_none (Nat.le_refl _)] at hearlier
      split
      · next heq => simp [heq]
      · next hne => simpa [Ne.symm hne] using hearlier
    · have hlength : (affairs.owners ++ [map]).length ≤ id := by
        rw [List.length_append]
        exact hgt
      rw [List.getElem?_eq_none (Nat.le_of_lt hgt)] at hearlier
      rw [List.getElem?_eq_none hlength]
      split
      · next heq => simp [heq ▸ hearlier, Nat.ne_of_gt hgt]
      · exact hearlier
  fresh id hid := by
    rw [owners_schedule, List.length_append] at hid
    exact h.fresh id (by omega)
  marked := h.marked

theorem cancel (h : affairs.Recorded) (howner : affairs.owners[id]? = some map) :
    (affairs.cancel map id).Recorded where
  owned := h.owned
  fresh other hother := by
    have hlength := (List.getElem?_eq_some_iff.mp howner).1
    rw [owners_cancel] at hother
    rw [cancellers_cancel, if_neg (by omega), h.fresh other hother]
  marked other := by
    rw [isCancelled_cancel, cancellers_cancel]
    split
    · rfl
    · exact h.marked other

/-- The job of one map is none of another one. -/
theorem ne_of_mem (h : affairs.Recorded) (howner : affairs.owners[id]? = some map)
    {other : Fin n} (hother : other ≠ map) {job : Nat} (hjob : job ∈ (affairs.of other).jobs) :
    job ≠ id := by
  intro heq
  have howned := (h.owned other job).mp hjob
  rw [heq, howner] at howned
  exact hother (Option.some.inj howned).symm

end Recorded

namespace Orderly

/-- Affairs stay orderly when something is done at a map that leaves it settled, or in use if a
lifecycle call is in progress. -/
theorem of_others (map : Fin n) (h : earlier.Orderly) (hrecorded : later.Recorded)
    (hof : ∀ other, other ≠ map → later.of other = earlier.of other)
    (hcancellers : ∀ other, other ≠ map → ∀ id ∈ (earlier.of other).jobs,
      later.cancellers id = earlier.cancellers id)
    (hused : (later.of map).phase.InTransit → 0 < (later.of map).uses)
    (hsettled : ¬ (later.of map).phase.InTransit → later.Settled map) : later.Orderly where
  toRecorded := hrecorded
  used other hother := by
    rcases eq_or_ne other map with rfl | hne
    · exact hused hother
    · rw [hof other hne] at hother ⊢
      exact h.used other hother
  settled other hquiet := by
    rcases eq_or_ne other map with rfl | hne
    · exact hsettled hquiet
    · rw [hof other hne] at hquiet
      exact (h.settled other hquiet).congr (hof other hne) (hcancellers other hne)

theorem change (h : affairs.Orderly) {act : Affair → Affair}
    (hjobs : (act (affairs.of map)).jobs = (affairs.of map).jobs)
    (hused : (act (affairs.of map)).phase.InTransit → 0 < (act (affairs.of map)).uses)
    (hsettled : ¬ (act (affairs.of map)).phase.InTransit → (affairs.change map act).Settled map) :
    (affairs.change map act).Orderly := by
  refine h.of_others map (h.toRecorded.change hjobs) (fun other hne => by simp [hne])
    (fun _ _ _ _ => rfl) ?_ ?_
  · simpa using hused
  · simpa using hsettled

/-- A map schedules a job while it is being started. -/
theorem schedule (h : affairs.Orderly) (htransit : (affairs.of map).phase.InTransit) :
    (affairs.schedule map).Orderly := by
  refine h.of_others map (h.toRecorded.schedule map) (fun other hne => by simp [hne])
    (fun _ _ _ _ => rfl) ?_ ?_
  · simpa using fun _ => h.used map htransit
  · simpa using fun hquiet => absurd htransit hquiet

/-- A map cancels a job of its own while it is being stopped. -/
theorem cancel (h : affairs.Orderly) (howner : affairs.owners[id]? = some map)
    (htransit : (affairs.of map).phase.InTransit) : (affairs.cancel map id).Orderly := by
  refine h.of_others map (h.toRecorded.cancel howner) (fun _ _ => rfl)
    (fun other hne job hjob => ?_) (h.used map) fun hquiet => absurd htransit hquiet
  rw [cancellers_cancel, if_neg (h.toRecorded.ne_of_mem howner hne hjob)]

end Orderly

/-! ## What is spared -/

variable {act : Affair → Affair} {started : Fin n → List Nat}

namespace Spares

theorem refl (affairs : Affairs n) : affairs.Spares (fun _ => []) affairs :=
  ⟨fun _ => rfl, fun _ => .rfl, fun _ _ => rfl, fun _ _ => rfl, fun _ _ => rfl,
    fun _ _ _ _ => rfl⟩

theorem trans {first second third : Affairs n} {started more : Fin n → List Nat}
    (h₁ : first.Spares started second) (h₂ : second.Spares more third) :
    first.Spares (fun map => started map ++ more map) third where
  jobs map := by rw [h₂.jobs, h₁.jobs, List.reverse_append, List.append_assoc]
  inTransit map := (h₂.inTransit map).trans (h₁.inTransit map)
  phase map htransit := (h₂.phase map ((h₁.inTransit map).mpr htransit)).trans
    (h₁.phase map htransit)
  job map htransit := (h₂.job map ((h₁.inTransit map).mpr htransit)).trans
    (h₁.job map htransit)
  started map htransit := by
    rw [h₁.started map htransit, h₂.started map ((h₁.inTransit map).mpr htransit),
      List.append_nil]
  cancellers map htransit id hid := by
    -- nothing is started in transit, so the jobs that the first part leaves are those it found
    have hjobs := h₁.jobs map
    rw [h₁.started map htransit] at hjobs
    have hlater := h₂.cancellers map ((h₁.inTransit map).mpr htransit) id (by simpa [hjobs])
    exact hlater.trans (h₁.cancellers map htransit id hid)

/-- Something is done in the affair of a map that neither begins nor ends a lifecycle call and is no
matter of one in progress. -/
theorem change (hjobs : (act (affairs.of map)).jobs = (affairs.of map).jobs)
    (htransit : (act (affairs.of map)).phase.InTransit ↔ (affairs.of map).phase.InTransit)
    (hspared : (affairs.of map).phase.InTransit →
      (act (affairs.of map)).phase = (affairs.of map).phase ∧
        (act (affairs.of map)).job = (affairs.of map).job) :
    affairs.Spares (fun _ => []) (affairs.change map act) where
  jobs other := by
    rw [of_change]
    split
    · next heq => simp [heq, hjobs]
    · rfl
  inTransit other := by
    rw [of_change]
    split
    · next heq => rw [heq, htransit]
    · rfl
  phase other hother := by
    rw [of_change]
    split
    · next heq =>
      subst heq
      exact (hspared hother).1
    · rfl
  job other hother := by
    rw [of_change]
    split
    · next heq =>
      subst heq
      exact (hspared hother).2
    · rfl
  started _ _ := rfl
  cancellers _ _ _ _ := rfl

/-- A map at which no lifecycle call is in progress cancels a job. -/
theorem cancel (h : affairs.Recorded) (howner : affairs.owners[id]? = some map)
    (hquiet : ¬ (affairs.of map).phase.InTransit) :
    affairs.Spares (fun _ => []) (affairs.cancel map id) where
  jobs _ := rfl
  inTransit _ := .rfl
  phase _ _ := rfl
  job _ _ := rfl
  started _ _ := rfl
  cancellers other hother job hjob := by
    have hne : other ≠ map := fun heq => hquiet (heq ▸ hother)
    rw [cancellers_cancel, if_neg (h.ne_of_mem howner hne hjob)]

end Spares

namespace Follows

theorem refl (affairs : Affairs n) : affairs.Follows (fun _ => []) affairs :=
  ⟨.refl affairs, fun _ => rfl⟩

theorem trans {first second third : Affairs n} {started more : Fin n → List Nat}
    (h₁ : first.Follows started second) (h₂ : second.Follows more third) :
    first.Follows (fun map => started map ++ more map) third :=
  ⟨h₁.toSpares.trans h₂.toSpares, fun map => (h₂.uses map).trans (h₁.uses map)⟩

end Follows

/-! ## Uses of a map -/

/-- Whether it is held by one or another is all the same to a map that is settled. -/
theorem Settled.hold (h : affairs.Settled map)
    (hphase : (act (affairs.of map)).phase = (affairs.of map).phase)
    (hjob : (act (affairs.of map)).job = (affairs.of map).job)
    (hjobs : (act (affairs.of map)).jobs = (affairs.of map).jobs)
    (hbefore : (affairs.of map).IsHeld) (hafter : (act (affairs.of map)).IsHeld) :
    (affairs.change map act).Settled map := by
  have hof : (affairs.change map act).of map = act (affairs.of map) := by simp
  -- somebody holds the map before and after, so both ways to be settled stay as they are
  rcases h with ⟨hstarted, -, hlatest⟩ | ⟨hstopped, hnone, hall⟩
  · refine .inl ⟨?_, ?_, ?_⟩
    · rw [hof, hphase, hstarted]
    · rwa [hof]
    · rwa [hof, hjob, hjobs]
  · refine .inr ⟨fun _ => ?_, ?_, ?_⟩
    · rw [hof, hphase, hstopped hbefore]
    · rw [hof, hjob, hnone]
    · rwa [hof, hjobs]

theorem Orderly.use (h : affairs.Orderly) (hused : (affairs.of map).Used (act (affairs.of map))) :
    (affairs.change map act).Orderly := by
  have huses := hused.uses
  refine h.change hused.jobs (fun _ => by omega) fun hquiet => ?_
  rw [hused.phase] at hquiet
  have hafter : (act (affairs.of map)).IsHeld := Affair.isHeld_of_uses (by omega)
  exact (h.settled map hquiet).hold hused.phase hused.job hused.jobs hused.held hafter

/-- A map that is in use is given one more handle. -/
theorem Orderly.addHandle (h : affairs.Orderly) (huses : 0 < (affairs.of map).uses) :
    (affairs.change map Affair.addHandle).Orderly := by
  refine h.change rfl (fun _ => huses) fun hquiet => ?_
  have hbefore : (affairs.of map).IsHeld := Affair.isHeld_of_uses huses
  have hafter : (Affair.addHandle (affairs.of map)).IsHeld := Affair.isHeld_of_uses huses
  exact (h.settled map hquiet).hold rfl rfl rfl hbefore hafter

theorem Follows.addHandle (affairs : Affairs n) (map : Fin n) :
    affairs.Follows (fun _ => []) (affairs.change map Affair.addHandle) where
  toSpares := .change rfl .rfl fun _ => ⟨rfl, rfl⟩
  uses other := by
    rw [of_change]
    split
    · next heq => rw [heq, Affair.addHandle]
    · rfl

theorem Spares.use (hused : (affairs.of map).Used (act (affairs.of map))) :
    affairs.Spares (fun _ => []) (affairs.change map act) :=
  .change hused.jobs (by rw [hused.phase]) fun _ => ⟨hused.phase, hused.job⟩

theorem Spares.letGo (affairs : Affairs n) (map : Fin n) :
    affairs.Spares (fun _ => []) (affairs.change map Affair.letGo) :=
  .change rfl .rfl fun _ => ⟨rfl, rfl⟩

/-- What has been done with a map in use follows on what was before it was taken into use when the
use is given up. -/
theorem Follows.letGo (hused : (earlier.of map).Used (act (earlier.of map)))
    (hfollows : (earlier.change map act).Follows started affairs) :
    earlier.Follows started (affairs.change map Affair.letGo) where
  toSpares := by
    simpa using ((Spares.use hused).trans hfollows.toSpares).trans (.letGo affairs map)
  uses other := by
    have huses := hfollows.uses other
    rw [of_change] at huses ⊢
    split
    · next heq =>
      subst heq
      rw [if_pos rfl, hused.uses] at huses
      simp only [Affair.letGo]
      omega
    · next hne => rwa [if_neg hne] at huses

/-- A use of a map is given up that is not the last hold on it. -/
theorem Orderly.letGo (hearlier : earlier.Orderly)
    (hused : (earlier.of map).Used (act (earlier.of map)))
    (hfollows : (earlier.change map act).Follows started affairs) (h : affairs.Orderly)
    (hheld : (Affair.letGo (affairs.of map)).IsHeld) :
    (affairs.change map Affair.letGo).Orderly := by
  have huses := (hfollows.letGo hused).uses map
  rw [of_change, if_pos rfl] at huses
  have htransit := (hfollows.letGo hused).inTransit map
  rw [of_change, if_pos rfl] at htransit
  refine h.change rfl (fun hother => ?_) fun hquiet => ?_
  · rw [huses]
    exact hearlier.used map (htransit.mp hother)
  · -- whoever holds the map in the end held it before the use was given up, too
    have hbefore : (affairs.of map).IsHeld := by
      simp only [Affair.IsHeld, Affair.letGo] at hheld ⊢
      omega
    exact (h.settled map hquiet).hold rfl rfl rfl hbefore hheld

/-- The use of a map that is the last hold on it is given up at a moment at which no lifecycle call
is in progress there. -/
theorem Orderly.quiet (hearlier : earlier.Orderly)
    (hused : (earlier.of map).Used (act (earlier.of map)))
    (hfollows : (earlier.change map act).Follows started affairs)
    (hgone : ¬ (Affair.letGo (affairs.of map)).IsHeld) :
    ¬ (affairs.of map).phase.InTransit := by
  have huses := (hfollows.letGo hused).uses map
  rw [of_change, if_pos rfl] at huses
  intro htransit
  rw [hfollows.inTransit, of_change, if_pos rfl, hused.phase] at htransit
  have hinUse := hearlier.used map htransit
  simp only [Affair.IsHeld] at hgone
  omega

/-- The last hold on a map that keeps no job is given up. -/
theorem Orderly.leave (h : affairs.Orderly) (hquiet : ¬ (affairs.of map).phase.InTransit)
    (hlast : ¬ (Affair.letGo (affairs.of map)).IsHeld) (hjob : (affairs.of map).job = none) :
    (affairs.change map Affair.letGo).Orderly := by
  refine h.change rfl (fun htransit => absurd htransit hquiet) fun _ => ?_
  rcases h.settled map hquiet with ⟨-, -, id, -, hid, -⟩ | ⟨-, -, hall⟩
  · rw [hjob] at hid
    cases hid
  · exact .inr ⟨by simp [hlast], by simpa [Affair.letGo] using hjob,
      by simpa [Affair.letGo] using hall⟩

/-- The last hold on a map is given up, and with it the job that the map keeps. -/
theorem Orderly.abandon (h : affairs.Orderly) (hquiet : ¬ (affairs.of map).phase.InTransit)
    (hlast : ¬ (Affair.letGo (affairs.of map)).IsHeld) (hjob : (affairs.of map).job = some id) :
    affairs.owners[id]? = some map ∧
      (((affairs.change map Affair.letGo).change map Affair.dropJob).cancel map id).Orderly := by
  -- since the map has a job, it is settled with its latest one
  rcases h.settled map hquiet with ⟨-, -, latest, others, hlatest, hjobs, hnone, hothers⟩ |
    ⟨-, hnone, -⟩
  · obtain rfl : latest = id := Option.some.inj (hlatest.symm.trans hjob)
    have howner : affairs.owners[latest]? = some map := (h.owned map latest).mp (by simp [hjobs])
    have hrecorded :
        (((affairs.change map Affair.letGo).change map Affair.dropJob).cancel map
          latest).Recorded :=
      ((h.toRecorded.change rfl).change rfl).cancel howner
    refine ⟨howner, h.of_others map hrecorded (fun other hne => by simp [hne])
      (fun other hne job hjob => ?_) ?_ fun _ => .inr ⟨?_, ?_, fun job hjob => ?_⟩⟩
    · rw [cancellers_cancel, if_neg (h.toRecorded.ne_of_mem howner hne hjob)]
      rfl
    · simpa [Affair.dropJob, Affair.letGo] using fun htransit => absurd htransit hquiet
    · exact fun hheld => absurd (by simpa [Affair.dropJob, Affair.IsHeld] using hheld) hlast
    · simp [Affair.dropJob]
    · -- of its own jobs the latest is cancelled now, and the others have been before
      have hmem : job = latest ∨ job ∈ others := by
        simpa [Affair.dropJob, Affair.letGo, hjobs] using hjob
      rw [cancellers_cancel]
      split
      · exact congrArg (map :: ·) hnone
      · next hne => exact hothers job (hmem.resolve_left hne)
  · rw [hjob] at hnone
    cases hnone

/-- A map at which no lifecycle call is in progress cancels its job. -/
theorem Follows.dispose (h : earlier.Follows started affairs) (hrecorded : affairs.Recorded)
    (howner : affairs.owners[id]? = some map) (hquiet : ¬ (affairs.of map).phase.InTransit) :
    earlier.Follows started ((affairs.change map Affair.dropJob).cancel map id) where
  toSpares := by
    -- the map gives up its job, which is then cancelled
    have hdropped : affairs.Spares (fun _ => []) (affairs.change map Affair.dropJob) :=
      .change rfl .rfl fun htransit => absurd htransit hquiet
    have hcancelled : (affairs.change map Affair.dropJob).Spares (fun _ => [])
        ((affairs.change map Affair.dropJob).cancel map id) :=
      .cancel (hrecorded.change rfl) howner (by simpa [Affair.dropJob] using hquiet)
    simpa using h.toSpares.trans (hdropped.trans hcancelled)
  uses other := by
    rw [of_cancel, of_change, ← h.uses other]
    split
    · next heq => rw [heq, Affair.dropJob]
    · rfl

/-! ## Starts and stops -/

/-- A map that is held and stopped keeps no job and has cancelled all it has scheduled. -/
theorem Orderly.idle (h : affairs.Orderly) (hphase : (affairs.of map).phase = .stopped) :
    affairs.Idle map := by
  rcases h.settled map (by simp [hphase, Phase.InTransit]) with hengaged | hidle
  · cases hphase.symm.trans hengaged.phase
  · exact hidle

theorem Orderly.engaged (h : affairs.Orderly) (hphase : (affairs.of map).phase = .started)
    (hheld : (affairs.of map).IsHeld) : affairs.Engaged map := by
  rcases h.settled map (by simp [hphase, Phase.InTransit]) with hengaged | hidle
  · exact hengaged
  · cases (hidle.phase hheld).symm.trans hphase

/-- A lifecycle call of one map, with what comes in between, follows on what was before it. -/
theorem Follows.call {begun between : Affairs n} {new : List Nat}
    (hbetween : begun.Follows started between)
    (hbegun : ∀ other, other ≠ map → begun.of other = earlier.of other)
    (hcancellers : ∀ other, other ≠ map → ∀ id ∈ (earlier.of other).jobs,
      begun.cancellers id = earlier.cancellers id)
    (hended : ∀ other, other ≠ map → later.of other = between.of other)
    (hsame : later.cancellers = between.cancellers)
    (hbefore : ¬ (earlier.of map).phase.InTransit) (hafter : ¬ (later.of map).phase.InTransit)
    (huses : (later.of map).uses = (earlier.of map).uses)
    (hjobs : (later.of map).jobs =
      (started map ++ new).reverse ++ (earlier.of map).jobs) :
    earlier.Follows (fun other => started other ++ if other = map then new else []) later where
  jobs other := by
    -- for this map everything is told by its own two ends, for any other by what lies between
    rcases eq_or_ne other map with rfl | hne
    · simpa using hjobs
    · rw [hended other hne, hbetween.jobs, hbegun other hne, if_neg hne, List.append_nil]
  inTransit other := by
    rcases eq_or_ne other map with rfl | hne
    · exact iff_of_false hafter hbefore
    · rw [hended other hne, hbetween.inTransit, hbegun other hne]
  phase other htransit := by
    have hne : other ≠ map := fun heq => hbefore (heq ▸ htransit)
    rw [← hbegun other hne] at htransit ⊢
    rw [hended other hne, hbetween.phase other htransit]
  job other htransit := by
    have hne : other ≠ map := fun heq => hbefore (heq ▸ htransit)
    rw [← hbegun other hne] at htransit ⊢
    rw [hended other hne, hbetween.job other htransit]
  started other htransit := by
    have hne : other ≠ map := fun heq => hbefore (heq ▸ htransit)
    rw [← hbegun other hne] at htransit
    rw [hbetween.started other htransit, if_neg hne, List.append_nil]
  cancellers other htransit id hid := by
    have hne : other ≠ map := fun heq => hbefore (heq ▸ htransit)
    rw [hsame, ← hcancellers other hne id hid]
    rw [← hbegun other hne] at htransit hid
    exact hbetween.cancellers other htransit id hid
  uses other := by
    rcases eq_or_ne other map with rfl | hne
    · exact huses
    · rw [hended other hne, hbetween.uses, hbegun other hne]

/-- A map is being started, and has scheduled its job. -/
abbrev beginStart (affairs : Affairs n) (map : Fin n) : Affairs n :=
  (affairs.change map (Affair.enter .starting)).schedule map

/-- A map is being stopped, and has cancelled its job. -/
abbrev beginStop (affairs : Affairs n) (map : Fin n) (id : Nat) : Affairs n :=
  ((affairs.change map (Affair.enter .stopping)).change map Affair.dropJob).cancel map id

theorem Orderly.begin_start (h : affairs.Orderly) (huses : 0 < (affairs.of map).uses) :
    (affairs.beginStart map).Orderly := by
  have hstarting : (affairs.change map (Affair.enter .starting)).Orderly :=
    h.change rfl (fun _ => huses) fun hquiet => absurd trivial hquiet
  exact hstarting.schedule (by simp [Affair.enter, Phase.InTransit])

/-- Whatever happens between the steps of a start, it ends with the map started. -/
theorem Orderly.end_start (h : earlier.Orderly) (hphase : (earlier.of map).phase = .stopped)
    (huses : 0 < (earlier.of map).uses)
    (hfollows : (earlier.beginStart map).Follows started affairs)
    (horderly : affairs.Orderly) :
    let kept := affairs.change map (Affair.keepJob earlier.owners.length)
    let ended := kept.change map (Affair.enter .started)
    ended.Orderly ∧ earlier.Follows (fun other =>
      started other ++ if other = map then [earlier.owners.length] else []) ended := by
  have htransit : ((earlier.beginStart map).of map).phase.InTransit := by
    simp [Affair.enter, Phase.InTransit]
  -- while the map is starting nobody else gives it a job, so the new one is still the latest
  have hjobs : (affairs.of map).jobs = earlier.owners.length :: (earlier.of map).jobs := by
    rw [hfollows.jobs, hfollows.started map htransit]
    simp [Affair.enter]
  have hcancellers : ∀ id ∈ earlier.owners.length :: (earlier.of map).jobs,
      affairs.cancellers id = earlier.cancellers id := by
    have hsame := hfollows.cancellers map htransit
    simpa [Affair.enter] using hsame
  have hidle := h.idle hphase
  have huses' : (affairs.of map).uses = (earlier.of map).uses := by
    rw [hfollows.uses]
    simp [Affair.enter]
  refine ⟨?_, ?_⟩
  · -- the map is settled with its new job, which nobody has cancelled, and all others have been
    rw [change_change]
    refine horderly.change rfl (fun htransit => htransit.elim) fun _ => .inl ⟨?_, ?_, ?_⟩
    · simp [Affair.enter]
    · simp only [of_change, if_true, Affair.enter, Affair.keepJob, Affair.IsHeld]
      omega
    · refine ⟨earlier.owners.length, (earlier.of map).jobs, ?_, ?_, ?_, fun other hother => ?_⟩
      · simp [Affair.enter, Affair.keepJob]
      · simp [Affair.enter, Affair.keepJob, hjobs]
      · rw [cancellers_change, hcancellers _ (List.mem_cons_self ..), h.fresh _ (Nat.le_refl _)]
      · rw [cancellers_change, hcancellers _ (List.mem_cons_of_mem _ hother),
          hidle.jobs other hother]
  · refine hfollows.call (fun other hne => by simp [hne]) (fun _ _ _ _ => rfl)
      (fun other hne => by simp [hne]) rfl (by simp [hphase, Phase.InTransit])
      (by simp [Affair.enter, Phase.InTransit])
      (by simpa [Affair.enter, Affair.keepJob] using huses') ?_
    rw [hfollows.started map htransit]
    simp [Affair.enter, Affair.keepJob, hjobs]

theorem Orderly.begin_stop (h : affairs.Orderly) (huses : 0 < (affairs.of map).uses)
    (howner : affairs.owners[id]? = some map) :
    (affairs.beginStop map id).Orderly := by
  have hstopping : (affairs.change map (Affair.enter .stopping)).Orderly :=
    h.change rfl (fun _ => huses) fun hquiet => absurd trivial hquiet
  have hdropped :
      ((affairs.change map (Affair.enter .stopping)).change map Affair.dropJob).Orderly := by
    refine hstopping.change rfl (fun _ => ?_) fun hquiet => ?_
    · simpa [Affair.dropJob, Affair.enter] using huses
    · simp [Affair.dropJob, Affair.enter, Phase.InTransit] at hquiet
  exact hdropped.cancel howner (by simp [Affair.dropJob, Affair.enter, Phase.InTransit])

/-- A stop that has begun finds the job that its map keeps, and may cancel it. -/
theorem Orderly.exists_job (h : affairs.Orderly) (hphase : (affairs.of map).phase = .started)
    (huses : 0 < (affairs.of map).uses) :
    ∃ id, (affairs.of map).job = some id ∧ affairs.owners[id]? = some map ∧
      (affairs.beginStop map id).Orderly := by
  obtain ⟨-, -, id, others, hjob, hjobs, -, -⟩ :=
    h.engaged hphase (Affair.isHeld_of_uses huses)
  have howner := (h.owned map id).mp (by simp [hjobs])
  exact ⟨id, hjob, howner, h.begin_stop huses howner⟩

/-- Whatever happens between the steps of a stop, it ends with the map stopped. -/
theorem Orderly.end_stop (h : earlier.Orderly) (hphase : (earlier.of map).phase = .started)
    (huses : 0 < (earlier.of map).uses) (hjob : (earlier.of map).job = some id)
    (hfollows : (earlier.beginStop map id).Follows started affairs)
    (horderly : affairs.Orderly) :
    (affairs.change map (Affair.enter .stopped)).Orderly ∧
      earlier.Follows started (affairs.change map (Affair.enter .stopped)) := by
  -- the map is started and held, so it is settled with its latest job, which the call has taken
  obtain ⟨-, -, latest, others, hlatest, hlist, hnone, hothers⟩ :=
    h.engaged hphase (Affair.isHeld_of_uses huses)
  obtain rfl : latest = id := Option.some.inj (hlatest.symm.trans hjob)
  have htransit : ((earlier.beginStop map latest).of map).phase.InTransit := by
    simp [Affair.dropJob, Affair.enter, Phase.InTransit]
  have hjobs : (affairs.of map).jobs = latest :: others := by
    rw [hfollows.jobs, hfollows.started map htransit]
    simpa [Affair.dropJob, Affair.enter] using hlist
  have hcancellers := hfollows.cancellers map htransit
  have huses' : (affairs.of map).uses = (earlier.of map).uses := by
    rw [hfollows.uses]
    simp [Affair.enter, Affair.dropJob]
  refine ⟨?_, ?_⟩
  · refine horderly.change rfl (fun htransit => htransit.elim) fun _ => .inr ⟨?_, ?_, ?_⟩
    · simp [Affair.enter]
    · have hdropped := hfollows.job map htransit
      simpa [Affair.enter, Affair.dropJob] using hdropped
    · -- the job that was taken has been cancelled by this call, and the others before
      intro job hmem
      have hmem' : job = latest ∨ job ∈ others := by simpa [Affair.enter, hjobs] using hmem
      have hbefore := hcancellers job (by simpa [Affair.enter, Affair.dropJob, hlist] using hmem')
      rw [cancellers_change, hbefore, cancellers_cancel]
      split
      · exact congrArg (map :: ·) hnone
      · next hne => exact hothers job (hmem'.resolve_left hne)
  · have howner := (h.owned map latest).mp (by simp [hlist])
    have hcall : earlier.Follows (fun other => started other ++ if other = map then [] else [])
        (affairs.change map (Affair.enter .stopped)) := by
      refine hfollows.call (fun other hne => by simp [hne]) (fun other hne job hmem => ?_)
        (fun other hne => by simp [hne]) rfl (by simp [hphase, Phase.InTransit])
        (by simp [Affair.enter, Phase.InTransit]) (by simpa [Affair.enter] using huses') ?_
      · -- a job of another map is not the one that was cancelled
        rw [cancellers_cancel, if_neg (h.toRecorded.ne_of_mem howner hne hmem)]
        rfl
      · rw [hfollows.started map htransit]
        simp [Affair.enter, hjobs, hlist]
    simpa using hcall

end Affairs

end ExpiringMap
