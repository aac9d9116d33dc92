import ExpiringMap.Store

/-!
# Removing entries one after the other

`Store.removeEach` takes out entries by key and sequence number, one pair after the other, each
step looking at the store that the one before has left.  What is left in the end does not show
any of that: it is the store without the entries whose key and number form one of the pairs
(`removeEach_snd`), and as many pairs succeed as there are entries less (`removeEach_fst`).
-/

namespace ExpiringMap.Store

variable {K V : Type}

@[ext]
theorem ext {first second : Store K V} (hentries : first.entries = second.entries)
    (hnext : first.next = second.next) : first = second := by
  cases first
  cases second
  cases hentries
  cases hnext
  rfl

@[simp] theorem entries_restrict (store : Store K V) (keep : Entry K V → Bool) :
    (store.restrict keep).entries = store.entries.filter keep := rfl

theorem restrict_restrict (store : Store K V) (first second : Entry K V → Bool) :
    (store.restrict first).restrict second =
      store.restrict fun entry => first entry && second entry := by
  ext1
  · simp only [entries_restrict, List.filter_filter]
    exact List.filter_congr fun entry _ => Bool.and_comm ..
  · rfl

/-- A restriction depends only on which entries of the store it keeps. -/
theorem restrict_congr {store : Store K V} {first second : Entry K V → Bool}
    (h : ∀ entry ∈ store.entries, first entry = second entry) :
    store.restrict first = store.restrict second := by
  ext1
  · exact List.filter_congr h
  · rfl

theorem restrict_eq_self {store : Store K V} {keep : Entry K V → Bool}
    (h : ∀ entry ∈ store.entries, keep entry = true) : store.restrict keep = store := by
  ext1
  · exact List.filter_eq_self.mpr h
  · rfl

theorem eq_of_key_eq [DecidableEq K] {store : Store K V} {first second : Entry K V}
    (hfirst : first ∈ store.entries) (hsecond : second ∈ store.entries)
    (hkey : first.key = second.key) : first = second := by
  have hlookup := lookup_eq_some_iff.mpr ⟨hfirst, hkey⟩
  rw [lookup_eq_some_iff.mpr ⟨hsecond, rfl⟩] at hlookup
  exact (Option.some.inj hlookup).symm

theorem lookup_eq_none_iff [DecidableEq K] {store : Store K V} {key : K} :
    store.lookup key = none ↔ ∀ entry ∈ store.entries, entry.key ≠ key := by
  simp [lookup]

theorem nodup_entries (store : Store K V) : store.entries.Nodup :=
  List.Pairwise.of_map Entry.key (fun _ _ hne heq => hne (congrArg Entry.key heq)) store.nodup_keys

theorem nodup_expired (store : Store K V) (now : Instant) : (store.expired now).Nodup :=
  store.nodup_entries.sublist List.filter_sublist

variable [DecidableEq K]

theorem lookup_restrict (store : Store K V) (keep : Entry K V → Bool) (key : K) :
    (store.restrict keep).lookup key = (store.lookup key).filter keep := by
  ext entry
  rw [lookup_eq_some_iff, entries_restrict, List.mem_filter, Option.filter_eq_some_iff,
    lookup_eq_some_iff, and_right_comm]

/-- The store without the entries whose key and number form one of the pairs. -/
def without (store : Store K V) (pairs : List (K × Nat)) : Store K V :=
  store.restrict fun entry => decide ((entry.key, entry.seq) ∉ pairs)

/-- Removes the entry of one pair after the other; gives the number of those that were there. -/
def removeEach (store : Store K V) : List (K × Nat) → Nat × Store K V
  | [] => (0, store)
  | (key, seq) :: rest =>
      let (removed, store) := store.removeIfSame key seq
      let (others, store) := store.removeEach rest
      (if removed then others + 1 else others, store)

@[simp] theorem without_nil (store : Store K V) : store.without [] = store :=
  restrict_eq_self (by simp)

theorem without_cons (store : Store K V) (pair : K × Nat) (pairs : List (K × Nat)) :
    store.without (pair :: pairs) = (store.without [pair]).without pairs := by
  simp only [without, restrict_restrict]
  refine restrict_congr fun entry _ => ?_
  simp [not_or]

theorem mem_without {store : Store K V} {pairs : List (K × Nat)} {entry : Entry K V} :
    entry ∈ (store.without pairs).entries ↔
      entry ∈ store.entries ∧ (entry.key, entry.seq) ∉ pairs := by
  simp [without]

/-- Key and number tell whether an entry of the store is among some others of it. -/
theorem tag_mem_iff {store : Store K V} {others : List (Entry K V)} {entry : Entry K V}
    (hothers : ∀ other ∈ others, other ∈ store.entries) (hentry : entry ∈ store.entries) :
    (entry.key, entry.seq) ∈ others.map (fun other => (other.key, other.seq)) ↔
      entry ∈ others := by
  refine ⟨fun h => ?_, fun h => List.mem_map.mpr ⟨entry, h, rfl⟩⟩
  obtain ⟨other, hother, heq⟩ := List.mem_map.mp h
  have hkey : other.key = entry.key := congrArg Prod.fst heq
  exact eq_of_key_eq (hothers other hother) hentry hkey ▸ hother

/-- A pair that names no entry takes none out. -/
theorem without_eq_self {store : Store K V} {key : K} {seq : Nat}
    (h : ∀ entry ∈ store.entries, entry.key = key → entry.seq ≠ seq) :
    store.without [(key, seq)] = store := by
  refine restrict_eq_self fun entry hentry => ?_
  by_cases hkey : entry.key = key
  · simp [h entry hentry hkey]
  · simp [hkey]

theorem touch_eq_self {store : Store K V} {key : K} (h : store.lookup key = none)
    (now : Instant) : store.touch key now = store := by
  ext1
  · refine (List.map_congr_left fun entry hentry => ?_).trans (List.map_id _)
    simp [lookup_eq_none_iff.mp h entry hentry]
  · rfl

theorem erase_eq_self {store : Store K V} {key : K} (h : store.lookup key = none) :
    store.erase key = store :=
  restrict_eq_self fun entry hentry => decide_eq_true (lookup_eq_none_iff.mp h entry hentry)

theorem erase_eq_without {store : Store K V} {entry : Entry K V} (h : entry ∈ store.entries) :
    store.erase entry.key = store.without [(entry.key, entry.seq)] := by
  refine restrict_congr fun other hother => ?_
  by_cases hkey : other.key = entry.key
  · -- the entry of the key is the only one that either filter drops
    simp [eq_of_key_eq hother h hkey]
  · simp [hkey]

/-- What is erased is one entry. -/
theorem perm_erase {store : Store K V} {entry : Entry K V} (h : entry ∈ store.entries) :
    store.entries.Perm (entry :: (store.erase entry.key).entries) := by
  have hnodup : (entry :: (store.erase entry.key).entries).Nodup :=
    List.nodup_cons.mpr ⟨by simp [erase], (store.erase entry.key).nodup_entries⟩
  refine (List.perm_ext_iff_of_nodup store.nodup_entries hnodup).mpr fun other => ?_
  simp only [erase, entries_restrict, List.mem_cons, List.mem_filter, decide_eq_true_eq]
  refine ⟨fun hother => ?_, ?_⟩
  · by_cases hkey : other.key = entry.key
    · exact .inl (eq_of_key_eq hother h hkey)
    · exact .inr ⟨hother, hkey⟩
  · rintro (rfl | ⟨hother, -⟩)
    · exact h
    · exact hother

theorem size_erase {store : Store K V} {entry : Entry K V} (h : entry ∈ store.entries) :
    (store.erase entry.key).size + 1 = store.size :=
  (perm_erase h).length_eq.symm

/-- One removal takes out the entry of the pair, and tells whether there was one. -/
theorem removeIfSame_eq (store : Store K V) (key : K) (seq : Nat) :
    (store.removeIfSame key seq).2 = store.without [(key, seq)] ∧
      (store.without [(key, seq)]).size + (store.removeIfSame key seq).1.toNat = store.size := by
  cases hlookup : store.lookup key with
  | none =>
      have hkeep : store.without [(key, seq)] = store :=
        without_eq_self fun entry hentry hkey =>
          absurd hkey (lookup_eq_none_iff.mp hlookup entry hentry)
      simp [removeIfSame, hlookup, hkeep]
  | some found =>
      obtain ⟨hfound, rfl⟩ := lookup_eq_some_iff.mp hlookup
      by_cases hseq : found.seq = seq
      · subst hseq
        have hsize := size_erase hfound
        rw [← erase_eq_without hfound]
        simpa [removeIfSame, hlookup] using hsize
      · -- the entry of the key has another number and stays
        have hkeep : store.without [(found.key, seq)] = store :=
          without_eq_self fun entry hentry hkey => by
            rwa [eq_of_key_eq hentry hfound hkey]
        simp [removeIfSame, hlookup, hseq, hkeep]

/-- Removing one pair after the other leaves what none of the pairs names. -/
theorem removeEach_snd (store : Store K V) (pairs : List (K × Nat)) :
    (store.removeEach pairs).2 = store.without pairs := by
  induction pairs generalizing store with
  | nil => simp [removeEach]
  | cons pair rest ih =>
      obtain ⟨key, seq⟩ := pair
      simp only [removeEach]
      rw [ih, (removeIfSame_eq store key seq).1, ← without_cons]

/-- As many removals succeed as there are entries less in the end. -/
theorem removeEach_fst (store : Store K V) (pairs : List (K × Nat)) :
    (store.removeEach pairs).1 + (store.without pairs).size = store.size := by
  induction pairs generalizing store with
  | nil => simp [removeEach]
  | cons pair rest ih =>
      obtain ⟨key, seq⟩ := pair
      have ⟨hstore, hsize⟩ := removeIfSame_eq store key seq
      have hrest := ih (store.removeIfSame key seq).2
      simp only [removeEach, without_cons store (key, seq) rest]
      rw [hstore] at hrest ⊢
      cases hremoved : (store.removeIfSame key seq).1 <;>
        simp [hremoved] at hsize ⊢ <;> omega

/-! ## What the pairs come to together -/

/-- The entries whose key and number form one of the pairs, which are those that are removed. -/
def named (store : Store K V) (pairs : List (K × Nat)) : List (Entry K V) :=
  store.entries.filter fun entry => decide ((entry.key, entry.seq) ∈ pairs)

theorem size_without (store : Store K V) (pairs : List (K × Nat)) :
    (store.named pairs).length + (store.without pairs).size = store.size := by
  have hsplit := store.entries.length_eq_countP_add_countP
    fun entry => decide ((entry.key, entry.seq) ∈ pairs)
  rw [List.countP_eq_length_filter, List.countP_eq_length_filter] at hsplit
  simpa [named, without, size] using hsplit.symm

theorem removeEach_fst_eq (store : Store K V) (pairs : List (K × Nat)) :
    (store.removeEach pairs).1 = (store.named pairs).length := by
  have hremoved := removeEach_fst store pairs
  have hnamed := size_without store pairs
  omega

/-- Neither the order of the pairs nor how often one of them comes up makes a difference. -/
theorem removeEach_congr {pairs others : List (K × Nat)} (h : ∀ pair, pair ∈ others ↔ pair ∈ pairs)
    (store : Store K V) : store.removeEach others = store.removeEach pairs := by
  have hstore : store.without others = store.without pairs :=
    restrict_congr fun entry _ => by simp only [h]
  have hnamed : store.named others = store.named pairs :=
    List.filter_congr fun entry _ => by simp only [h]
  refine Prod.ext ?_ ?_
  · rw [removeEach_fst_eq, removeEach_fst_eq, hnamed]
  · rw [removeEach_snd, removeEach_snd, hstore]

/-- Whatever a store holds and whatever pairs of a key and a number come one after the other: what
is left are the entries that none of the pairs names, each as it was; as many removals succeed as
there are entries that one of them names, which is the number of entries less; and in any other
order the pairs come to the same. -/
theorem removeEach_removes_named (store : Store K V) (pairs : List (K × Nat)) :
    let removal := store.removeEach pairs
    (∀ entry, entry ∈ removal.2.entries ↔
      entry ∈ store.entries ∧ (entry.key, entry.seq) ∉ pairs) ∧
    removal.2.next = store.next ∧
    removal.1 = (store.named pairs).length ∧
    removal.1 + removal.2.size = store.size ∧
    ∀ others, others.Perm pairs → store.removeEach others = removal := by
  intro removal
  have hleft : removal.2 = store.without pairs := removeEach_snd store pairs
  refine ⟨fun entry => ?_, ?_, removeEach_fst_eq store pairs, ?_, fun others hperm => ?_⟩
  · rw [hleft, mem_without]
  · rw [hleft, without, restrict]
  · rw [hleft]
    exact removeEach_fst store pairs
  · exact removeEach_congr (fun _ => hperm.mem_iff) store

/-- Of two entries with one number, a pair that comes twice and a stale one take out just one. -/
example :
    let first : Entry Nat Nat := { key := 1, value := 10, timeout := .zero, seq := 0 }
    let store := (Store.empty.place first).place { first with key := 2 }
    let removal := store.removeEach [(1, 0), (2, 5), (1, 0)]
    removal.1 = 1 ∧ removal.2.entries = [{ first with key := 2 }] := by
  decide

end ExpiringMap.Store
