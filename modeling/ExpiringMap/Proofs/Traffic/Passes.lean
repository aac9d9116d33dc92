import ExpiringMap.Proofs.Pass.Steps
import ExpiringMap.Proofs.Traffic.Protocol

/-!
# Passes in a protocol

Whatever a protocol says of a pass, it says it of few moments: the pass takes the lock, looks for
what has expired, goes by what it has listed, and gives the lock back.  A protocol that provides for
these moments (`Protocol.Provides`) provides for the pass as a whole (`leads_pass`), loops, panics
of hooks and all.
-/

namespace ExpiringMap.Protocol

open Operation

variable {n : Nat} {K V σ α : Type} {protocol : Protocol n K V σ} {map : Fin n} {point : σ}

theorem leads_of_allows {step : Step n K V} (h : protocol.Allows point step) :
    protocol.Leads (fun _ last => last = point) (.act step .done : Operation n K V _) point :=
  leads_of_every ⟨h, fun _ => trivial⟩

/-- What the screening hook lets through has been shown to it. -/
theorem leads_screen {entries : List (Entry K V)}
    (hasks : ∀ entry ∈ entries, protocol.asks point map (.screening entry)) :
    protocol.Leads (fun outcome last => last = point ∧
        ∀ accepted, outcome = .ok accepted → accepted ⊆ entries)
      (screen map entries) point := by
  induction entries with
  | nil => exact ⟨rfl, fun accepted heq => by cases heq; exact List.Subset.refl _⟩
  | cons entry rest ih =>
      obtain ⟨hentry, hrest⟩ := List.forall_mem_cons.mp hasks
      refine ⟨hentry, fun verdict => ?_⟩
      cases verdict with
      | error panic => exact ⟨rfl, nofun⟩
      | ok valid =>
          refine (ih hrest).bind fun outcome last ⟨hlast, haccepted⟩ => ?_
          cases outcome with
          | error panic => exact ⟨hlast, nofun⟩
          | ok accepted =>
              have hsubset := haccepted accepted rfl
              refine ⟨hlast, fun kept heq => ?_⟩
              obtain rfl := Except.ok.inj heq
              cases valid with
              | true => exact List.cons_subset_cons entry hsubset
              | false => exact List.subset_cons_of_subset entry hsubset

/-- What the eviction hook confirms it has been told of. -/
theorem leads_notifyAll {entries : List (Entry K V)}
    (hasks : ∀ entry ∈ entries, protocol.asks point map (.eviction entry.key entry.value))
    (hlog : ∀ record, protocol.Allows point (.act (.log map record))) :
    protocol.Leads (fun confirmed last => last = point ∧ confirmed ⊆ entries)
      (notifyAll map entries) point := by
  induction entries with
  | nil => exact ⟨rfl, List.Subset.refl _⟩
  | cons entry rest ih =>
      obtain ⟨hentry, hrest⟩ := List.forall_mem_cons.mp hasks
      have hnotify : protocol.Leads (fun _ last => last = point) (notify map entry) point := by
        refine ⟨hentry, fun verdict => ?_⟩
        cases verdict with
        | ok confirmed => rfl
        | error panic => exact (leads_of_allows (hlog _)).bind fun _ _ hlast => hlast
      refine hnotify.bind fun valid last hlast => ?_
      subst hlast
      refine (ih hrest).bind fun confirmed last ⟨hlast, hconfirmed⟩ => ⟨hlast, ?_⟩
      cases valid with
      | true => exact List.cons_subset_cons entry hconfirmed
      | false => exact List.subset_cons_of_subset entry hconfirmed

theorem leads_removeAll {entries : List (Entry K V)}
    (hremoves : ∀ entry ∈ entries,
      protocol.Allows point (.act (.map map (.removeIfSame entry.key entry.seq)))) :
    protocol.Leads (fun _ last => last = point) (removeAll map entries) point := by
  refine leads_of_every ((removes_removeAll map entries).mono ?_)
  rintro _ ⟨entry, hentry, rfl⟩
  exact hremoves entry hentry

/-- Whether a protocol provides for a pass that begins at a point: there are a point inside the
lock, and a point for everything that may be listed. -/
structure Provides (protocol : Protocol n K V σ) (map : Fin n) (first inside : σ)
    (listed : List (Entry K V) → σ) : Prop where
  locks : protocol.permits first (.map map .lock) ∧
    protocol.after first (.map map .lock) () = inside
  size : protocol.Allows inside (.act (.map map .size))
  clock : protocol.Allows inside (.act (.clock .read))
  scans : ∀ now, protocol.permits inside (.map map (.scan now)) ∧
    ∀ found, protocol.after inside (.map map (.scan now)) found = listed found
  screens : ∀ found, ∀ entry ∈ found, protocol.asks (listed found) map (.screening entry)
  notifies : ∀ found, ∀ entry ∈ found,
    protocol.asks (listed found) map (.eviction entry.key entry.value)
  removes : ∀ found, ∀ entry ∈ found,
    protocol.Allows (listed found) (.act (.map map (.removeIfSame entry.key entry.seq)))
  logs : ∀ point, point = inside ∨ (∃ found, point = listed found) →
    ∀ record, protocol.Allows point (.act (.log map record))
  unlocks : ∀ point, point = inside ∨ (∃ found, point = listed found) →
    protocol.permits point (.map map .unlock)

/-- What is done under the lock may lead to any of these points, from which the lock is given
back. -/
theorem leads_guarded {first inside : σ} {reaches : σ → Prop} {body : Operation n K V α}
    (hlock : protocol.permits first (.map map .lock) ∧
      protocol.after first (.map map .lock) () = inside)
    (hbody : protocol.Leads (fun _ last => reaches last) body inside)
    (hunlock : ∀ point, reaches point → protocol.permits point (.map map .unlock)) :
    protocol.Leads
      (fun _ last => ∃ point, reaches point ∧ last = protocol.after point (.map map .unlock) ())
      (guarded map body) first := by
  refine ⟨hlock.1, fun _ _ => ?_⟩
  rw [hlock.2]
  refine leads_bind.mpr (hbody.bind fun result point hpoint => ?_)
  exact ⟨hunlock point hpoint, fun _ _ => ⟨point, hpoint, rfl⟩⟩

theorem Provides.leads_pass {first inside : σ} {listed : List (Entry K V) → σ}
    (h : protocol.Provides map first inside listed) :
    protocol.Leads
      (fun _ last => ∃ point, (point = inside ∨ ∃ found, point = listed found) ∧
        last = protocol.after point (.map map .unlock) ())
      (pass map) first := by
  refine leads_guarded h.locks ?_ h.unlocks
  have hsize : protocol.Leads (fun _ last => last = inside) (Operation.size map) inside :=
    leads_of_allows h.size
  have hlogs : ∀ record, protocol.Leads (fun _ last => last = inside) (log map record) inside :=
    fun record => leads_of_allows (h.logs inside (.inl rfl) record)
  refine hsize.bind fun count last hcounted => ?_
  rw [hcounted]
  refine (hlogs _).bind fun _ last hlogged => ?_
  rw [hlogged]
  refine hsize.bind fun size last hsized => ?_
  rw [hsized]
  split
  · exact .inl rfl
  have hnow : protocol.Leads (fun _ last => last = inside) now inside := leads_of_allows h.clock
  refine hnow.bind fun now last hread => ?_
  rw [hread]
  refine ⟨(h.scans now).1, fun found _ => ?_⟩
  rw [(h.scans now).2 found]
  refine (leads_screen (h.screens found)).bind ?_
  rintro outcome _ ⟨rfl, haccepted⟩
  rcases outcome with panic | _ | ⟨oldest, others⟩
  · exact .inr ⟨found, rfl⟩
  · exact .inr ⟨found, rfl⟩
  -- the candidates have been listed, and what is confirmed is among them
  have hcandidates : Entry.inOrder (oldest :: others) ⊆ found := fun entry hentry =>
    haccepted _ rfl ((Entry.inOrder_perm _).mem_iff.mp hentry)
  have hlog := h.logs (listed found) (.inr ⟨found, rfl⟩)
  have hevict : protocol.Leads (fun _ last => last = listed found) (evict map (oldest :: others))
      (listed found) := by
    refine (leads_notifyAll (fun entry hentry =>
      h.notifies found entry (hcandidates hentry)) hlog).bind ?_
    rintro confirmed _ ⟨rfl, hconfirmed⟩
    refine (leads_removeAll fun entry hentry =>
      h.removes found entry (hcandidates (hconfirmed hentry))).bind fun _ _ hremoved => ?_
    rw [hremoved]
    exact leads_of_allows (hlog _)
  exact hevict.bind fun _ _ hevicted => .inr ⟨found, hevicted⟩

end ExpiringMap.Protocol
