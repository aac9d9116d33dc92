import ExpiringMap.Proofs.Pass.Course
import ExpiringMap.Proofs.Reachable

/-!
# What a pass takes out

Hooks may do what they like to the store while a pass consults them, and the pass goes by what it
found before.  Still it is certain what the pass itself does: nothing up to the last notification,
and then it takes out exactly the entries that were confirmed and are still there
(`pass_evicts_confirmed`).  An entry that has been put under the key of a candidate meanwhile has
another number (`Deployment.Grows`), so it stays.
-/

namespace ExpiringMap.Operation

open Program

variable {n : Nat} {S K V : Type} [DecidableEq K]

def tags (entries : List (Entry K V)) : List (K × Nat) :=
  entries.map fun entry => (entry.key, entry.seq)

/-- Whether a pass of a map consults the hooks in its `opening` and evicts in its `closing`, given
the deployments that it found and left. -/
structure Evicts (map : Fin n) (before after : Deployment n S K V)
    (opening closing : List (Moment n S K V))
    (screened notified : List (Entry K V × Outcome Bool)) : Prop where
  /-- What the opening changes in a store is changed within the consultation of a hook. -/
  quiet : ∀ moment ∈ opening, moment.act.IsAct →
    ∀ other, (moment.after.state other).store = (moment.before.state other).store
  /-- Every consultation of the pass belongs to the opening. -/
  consulted : consultations opening = screenings map screened ++ notifications map notified ∧
    consultations closing = []
  /-- The hooks were shown entries that the pass found. -/
  shown : ∀ pair ∈ screened ++ notified, pair.1 ∈ (before.state map).store.entries
  /-- The closing takes out the confirmed entries, as far as they are still there. -/
  takesOut : (after.state map).store =
    ((reached before opening).state map).store.without (tags (agreed notified))
  /-- An entry that a hook did not say yes to stays. -/
  refused : ∀ entry verdict, (entry, verdict) ∈ screened ++ notified → verdict.isYes = false →
    ∀ kept ∈ ((reached before opening).state map).store.entries,
      kept.key = entry.key → kept.seq = entry.seq → kept ∈ (after.state map).store.entries
  /-- An entry that has been placed since the pass began stays. -/
  renewed : ∃ events, (reached before opening).journal = events ++ before.journal ∧
    ∀ placed ∈ placings map events,
      ∀ kept ∈ ((reached before opening).state map).store.entries,
        kept.Stems placed → kept ∈ (after.state map).store.entries
  /-- If there were candidates, the closing writes how many entries have left the store. -/
  summary : ∃ evicted,
    evicted + (after.state map).store.size = ((reached before opening).state map).store.size ∧
      records closing =
        if notified.isEmpty then [] else [(map, .passSummary evicted notified.length)]

theorem mem_without_tags {store : Store K V} {entries : List (Entry K V)} {kept : Entry K V} :
    kept ∈ (store.without (tags entries)).entries ↔ kept ∈ store.entries ∧
      ∀ entry ∈ entries, kept.key = entry.key → kept.seq ≠ entry.seq := by
  rw [Store.mem_without, tags, List.mem_map]
  refine and_congr_right fun _ => ⟨fun hnot entry hentry hkey hseq => ?_, fun hother htag => ?_⟩
  · exact hnot ⟨entry, hentry, by rw [hkey, hseq]⟩
  · obtain ⟨entry, hentry, heq⟩ := htag
    obtain ⟨hkey, hseq⟩ := Prod.mk.inj heq
    exact hother entry hentry hkey.symm hseq.symm

section Pass

variable {plan : Plan n S K V} {deployment : Deployment n S K V}

/-- What has been placed while the hooks were consulted has new numbers. -/
theorem grows_inquiry (plan : Plan n S K V) (deployment : Deployment n S K V) (depth : Nat)
    (map : Fin n) :
    deployment.Grows
      ((inquiry map).run (plan.respond (plan.consultation depth)) deployment).2 := by
  have hlasting := lasting_proceeds plan
  have hpass := (composes_proceeds (hlasting.keeps_consult depth)).pass map
  rw [pass_eq] at hpass
  exact (Maintains.of_bind .refl hpass deployment).grows

/-- A pass changes nothing in the stores up to its last notification, and then takes out exactly
the entries whose key and number are those of a candidate that the eviction hook has confirmed,
whatever the hooks do meanwhile and however deep their calls are nested. -/
theorem pass_evicts_confirmed (hreachable : plan.Reachable deployment) (depth : Nat)
    (map : Fin n) :
    let respond := plan.respond (plan.consultation depth)
    ∃ (opening closing : List (Moment n S K V))
      (screened notified : List (Entry K V × Outcome Bool)),
      (pass map).trace respond deployment = opening ++ closing ∧
        Evicts map deployment ((pass map).run respond deployment).2 opening closing screened
          notified := by
  intro respond
  obtain ⟨found, screened, notified, hconsulted, -, hfound, hshort, hresult⟩ :=
    inquiry_course plan (plan.consultation depth) map deployment
  set inquired := ((inquiry map).run respond deployment).2 with hinquired
  set result := ((inquiry map).run respond deployment).1 with hdef
  obtain ⟨hstore, -, hsummary⟩ :=
    conclusion_course plan (plan.consultation depth) map hresult inquired
  have hnodup : (screened.map Prod.fst).Nodup :=
    (hfound.nodup_iff.mpr (Store.nodup_expired _ _)).sublist hshort.sublist
  have hshown : ∀ pair ∈ screened ++ notified, pair.1 ∈ (deployment.state map).store.entries :=
    fun pair hpair => hresult.mem_entries hfound hshort hpair
  have hconfirmed : ∀ entry ∈ agreed notified, entry ∈ (deployment.state map).store.entries :=
    fun entry hentry => hshown _ (List.mem_append_right screened ((mem_agreed ..).mp hentry))
  -- the opening is the inquiry, and the closing is the conclusion
  refine ⟨(inquiry map).trace respond deployment, (conclusion map result).trace respond inquired,
    screened, notified, by rw [pass_eq, trace_bind], ?_⟩
  rw [pass_eq, run_bind, ← hdef, ← hinquired]
  constructor
  case quiet =>
    exact fun moment hmoment hact other =>
      store_of_leavesStores (leavesStores_inquiry map) hmoment hact other
  case consulted =>
    exact ⟨hconsulted, consultations_conclusion ..⟩
  case shown => exact hshown
  case takesOut =>
    rw [reached_trace]
    exact hstore
  case refused =>
    intro entry verdict hpair hno kept hkept hkey hseq
    rw [reached_trace, ← hinquired] at hkept
    rw [hstore]
    refine mem_without_tags.mpr ⟨hkept, fun other hother hkey' _ => ?_⟩
    -- two entries that were found under one key are one entry, which was not confirmed
    have heq : entry = other := Store.eq_of_key_eq (hshown _ hpair) (hconfirmed other hother)
      (hkey.symm.trans hkey')
    exact hresult.not_mem_agreed hnodup hpair hno (heq ▸ hother)
  case renewed =>
    obtain ⟨events, hjournal, hplaced⟩ := (grows_inquiry plan deployment depth map).journal
    rw [reached_trace, ← hinquired, hstore]
    refine ⟨events, hjournal, fun placed hmem kept hkept hstems => ?_⟩
    refine mem_without_tags.mpr ⟨hkept, fun other hother _ hseq => ?_⟩
    -- a candidate has a number that had been given out before the pass began
    have hold := (hreachable.numbered map).seq_lt_next (hconfirmed other hother)
    have hnew := hplaced map placed hmem
    have hsame : placed.seq = other.seq := hstems.seq.symm.trans hseq
    omega
  case summary =>
    rw [reached_trace]
    exact hsummary

/-- The pass over `crowded` tells the eviction hook of four entries and takes out one of the two
that are confirmed, since the other one has been put again meanwhile. -/
theorem pass_evicts_confirmed_crowded :
    let after := (discerning.run 1 (pass 0) crowded).2
    (∃ (opening closing : List (Moment 1 Unit Nat Nat))
      (screened notified : List (Entry Nat Nat × Outcome Bool)),
      passOverCrowded = opening ++ closing ∧
        Evicts 0 crowded after opening closing screened notified ∧
        screened = crowdedScreened ∧
        notifications (0 : Fin 1) notified = notifications 0 crowdedNotified) ∧
    (crowded.state 0).store.entries.map (fun entry => (entry.key, entry.seq)) =
      [(4, 4), (3, 3), (2, 2), (1, 1), (0, 0)] ∧
    (after.state 0).store.entries.map (fun entry => (entry.key, entry.seq)) =
      [(3, 5), (2, 2), (1, 1), (0, 0)] ∧
    (0, .passSummary 1 4) ∈ records passOverCrowded := by
  intro after
  obtain ⟨opening, closing, screened, notified, htrace, h⟩ :=
    pass_evicts_confirmed reachable_crowded 1 0
  refine ⟨⟨opening, closing, screened, notified, htrace, h, ?_⟩, by decide +kernel,
    by decide +kernel, by decide +kernel⟩
  -- the closing consults nobody, so the opening has all the consultations of the pass
  have hconsulted : consultations passOverCrowded = consultations opening := by
    rw [show passOverCrowded = _ from htrace, consultations_append, h.consulted.2, List.append_nil]
  exact screenings_append_inj
    (h.consulted.1.symm.trans (hconsulted.symm.trans consultations_passOverCrowded))

end Pass

end ExpiringMap.Operation
