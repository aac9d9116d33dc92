import ExpiringMap.Proofs.Numbering
import ExpiringMap.Proofs.Servings

/-!
# The ledger of a map

The ledger of a map has a line for every entry that comes into its store or leaves it, for every
eviction that a hook confirms, and for every summary that a pass writes.  It can be read off the
steps of an operation (`ledger`), where every line belongs to the step in which it is written, and
but for the confirmations also off the journal of a deployment (`account`).  Both tell the same of a
run: what the account has more in the end is what the ledgers of all servings have between them
(`accrues_books`).
-/

namespace ExpiringMap

variable {n : Nat} {S K V α : Type}

/-! ## Lines -/

/-- What an eviction hook has been shown when it said yes, and the entry that the key had in the
store at that time. -/
structure Confirmation (K V : Type) where
  key : K
  value : V
  present : Option (Entry K V)
deriving DecidableEq

/-- A line in the ledger of a map. -/
inductive Line (K V : Type)
  | placed (entry : Entry K V)
  | left (entry : Entry K V) (departure : Departure)
  | confirmed (confirmation : Confirmation K V)
  /-- A pass has told how many of its candidates it has evicted. -/
  | summed (evicted candidates : Nat)
deriving DecidableEq

namespace Line

def placed? : Line K V → Option (Entry K V)
  | placed entry => some entry
  | _ => none

def departed? : Line K V → Option (Entry K V)
  | left entry _ => some entry
  | _ => none

def evicted? : Line K V → Option (Entry K V)
  | left entry .evicted => some entry
  | _ => none

def confirmation? : Line K V → Option (Confirmation K V)
  | confirmed confirmation => some confirmation
  | _ => none

/-- Whether a line is in the journal, too. -/
def isNoted : Line K V → Bool
  | confirmed _ => false
  | _ => true

end Line

def MapEvent.line? : MapEvent K V → Option (Line K V)
  | placed entry _ => some (.placed entry)
  | left entry departure => some (.left entry departure)
  | _ => none

def LogRecord.line? : LogRecord → Option (Line K V)
  | passSummary evicted candidates => some (.summed evicted candidates)
  | _ => none

def Event.line? (map : Fin n) : Event n K V → Option (Line K V)
  | ofMap other event => if other = map then event.line? else none
  | logged other record => if other = map then record.line? else none
  | _ => none

/-- The lines of a map among some events, in the order of the events. -/
def account (map : Fin n) (events : List (Event n K V)) : List (Line K V) :=
  events.filterMap (Event.line? map)

@[simp] theorem account_nil (map : Fin n) : account map ([] : List (Event n K V)) = [] := rfl

@[simp] theorem account_append (map : Fin n) (later earlier : List (Event n K V)) :
    account map (later ++ earlier) = account map later ++ account map earlier :=
  List.filterMap_append

/-- The entries that were placed are those that the journal tells of. -/
theorem placed_account (map : Fin n) (events : List (Event n K V)) :
    (account map events).filterMap Line.placed? = placings map events := by
  unfold account placings
  rw [List.filterMap_filterMap]
  congr 1
  funext event
  -- only what is done to a map can place an entry
  cases event with
  | ofMap other event =>
      simp only [Event.line?, Event.placed?]
      split
      · cases event <;> rfl
      · rfl
  | logged other record =>
      simp only [Event.line?, Event.placed?]
      split
      · cases record <;> rfl
      · rfl
  | ofScheduler | clockMoved | called | answered | acted | gathered => rfl

/-! ## The ledger of an operation -/

variable [DecidableEq K]

/-- The lines of a map that are written in a step. -/
def Moment.lines (map : Fin n) : Moment n S K V → List (Line K V)
  | ⟨.act (.map other act), _, before, _⟩ =>
      if other = map then (act.events (before.state map)).filterMap MapEvent.line? else []
  | ⟨.act (.log other record), _, _, _⟩ => if other = map then record.line?.toList else []
  | ⟨.consult other (.eviction key value), .ok true, before, _⟩ =>
      if other = map then [.confirmed ⟨key, value, (before.state map).store.lookup key⟩] else []
  | _ => []

/-- The lines of a map that are written in some steps. -/
def ledger (map : Fin n) (moments : List (Moment n S K V)) : List (Line K V) :=
  moments.flatMap (Moment.lines map)

@[simp] theorem ledger_nil (map : Fin n) : ledger map ([] : List (Moment n S K V)) = [] := rfl

@[simp] theorem ledger_cons (map : Fin n) (moment : Moment n S K V)
    (rest : List (Moment n S K V)) :
    ledger map (moment :: rest) = moment.lines map ++ ledger map rest := rfl

@[simp] theorem ledger_append (map : Fin n) (earlier later : List (Moment n S K V)) :
    ledger map (earlier ++ later) = ledger map earlier ++ ledger map later :=
  List.flatMap_append

/-! ## Ledgers and accounts -/

/-- What an act adds to the account of a map are the lines of its step. -/
theorem account_perform (map : Fin n) (enumeration : Fin n → Enumeration K V)
    (deployment : Deployment n S K V) (act : Act n K V) (answer : act.Answer)
    (after : Deployment n S K V) :
    account map (deployment.perform enumeration act).2.journal =
      (Moment.lines map ⟨.act act, answer, deployment, after⟩).reverse ++
        account map deployment.journal := by
  cases act with
  | map other act =>
      simp only [Deployment.perform, Deployment.journal_onMap, account_append, Moment.lines]
      congr 1
      unfold account
      rw [List.filterMap_reverse, List.filterMap_map]
      -- events of another map give no line in this ledger
      split
      · next heq =>
        subst heq
        congr 2
        funext event
        simp [Event.line?]
      · next hne =>
        simp [Event.line?, hne, Function.comp_def]
  | log other record =>
      simp only [Deployment.perform, Deployment.journal_note, account_append, Moment.lines]
      congr 1
      by_cases heq : other = map
      · cases record <;> simp [account, Event.line?, LogRecord.line?, heq]
      · simp [account, Event.line?, heq]
  | clock act =>
      simp only [Deployment.perform, Deployment.onClock, Deployment.journal_note, account_append,
        Moment.lines]
      split <;> rfl
  | scheduler act =>
      simp only [Deployment.perform, Deployment.onScheduler, Deployment.journal_note,
        account_append, Moment.lines]
      congr 1
      simp [account, List.filterMap_reverse, List.filterMap_map, Event.line?, Function.comp_def]
  | sleep ns =>
      simp only [Deployment.perform, Deployment.elapse, Deployment.journal_note, account_append,
        Moment.lines]
      split <;> rfl

theorem isNoted_lines_act (map : Fin n) (act : Act n K V) (answer : act.Answer)
    (before after : Deployment n S K V) :
    (Moment.lines map ⟨.act act, answer, before, after⟩).filter Line.isNoted =
      Moment.lines map ⟨.act act, answer, before, after⟩ := by
  refine List.filter_eq_self.mpr fun line hline => ?_
  -- a confirmation is the only line that is not in the journal, and no act writes it
  cases act with
  | map other act =>
      simp only [Moment.lines] at hline
      split at hline
      · obtain ⟨event, -, hevent⟩ := List.mem_filterMap.mp hline
        cases event <;> cases hevent <;> rfl
      · simp at hline
  | log other record =>
      simp only [Moment.lines] at hline
      split at hline
      · cases record <;> simp [LogRecord.line?] at hline
        simp [hline, Line.isNoted]
      · simp at hline
  | clock | scheduler | sleep => simp [Moment.lines] at hline

theorem isNoted_lines_consult (map other : Fin n) (hook : Hook K V) (verdict : Outcome Bool)
    (before after : Deployment n S K V) :
    (Moment.lines map ⟨.consult other hook, verdict, before, after⟩).filter Line.isNoted = [] := by
  unfold Moment.lines
  split
  · next heq => cases heq
  · next heq => cases heq
  · split <;> rfl
  · rfl

/-- The lines of a map that are written in the steps of some servings. -/
def ledgers (map : Fin n) (servings : List (Serving n S K V)) : List (Line K V) :=
  servings.flatMap fun serving => ledger map serving.moments

@[simp] theorem ledgers_append (map : Fin n) (earlier later : List (Serving n S K V)) :
    ledgers map (earlier ++ later) = ledgers map earlier ++ ledgers map later :=
  List.flatMap_append

@[simp] theorem ledgers_singleton (map : Fin n) (serving : Serving n S K V) :
    ledgers map [serving] = ledger map serving.moments :=
  List.append_nil _

/-- Whether the account of a map has more later on by those of some lines that are noted. -/
def Books (map : Fin n) (earlier : Deployment n S K V) (lines : List (Line K V))
    (later : Deployment n S K V) : Prop :=
  (account map later.journal).Perm (lines.filter Line.isNoted ++ account map earlier.journal)

namespace Books

variable {map : Fin n} {first second third : Deployment n S K V} {lines more : List (Line K V)}

omit [DecidableEq K] in
theorem perm (h : Books map first lines second) (hperm : lines.Perm more) :
    Books map first more second :=
  h.trans ((hperm.filter _).append_right _)

omit [DecidableEq K] in
theorem trans (h : Books map first lines second) (h' : Books map second more third) :
    Books map first (lines ++ more) third := by
  have hboth : (account map third.journal).Perm
      (more.filter Line.isNoted ++ (lines.filter Line.isNoted ++ account map first.journal)) :=
    List.Perm.trans h' (h.append_left _)
  unfold Books
  rw [List.filter_append]
  refine hboth.trans ?_
  rw [← List.append_assoc]
  exact List.perm_append_comm.append_right _

omit [DecidableEq K] in
/-- What is noted beside the maps and their logs is in no account. -/
theorem of_note {events : List (Event n K V)} (hjournal : second.journal = events ++ first.journal)
    (hevents : account map events = []) : Books map first [] second := by
  unfold Books
  rw [hjournal, account_append, hevents]
  exact .rfl

theorem act (enumeration : Fin n → Enumeration K V) (deployment : Deployment n S K V)
    (act : Act n K V) (answer : act.Answer) (after : Deployment n S K V) :
    Books map deployment (Moment.lines map ⟨.act act, answer, deployment, after⟩)
      (deployment.perform enumeration act).2 := by
  unfold Books
  rw [account_perform map enumeration deployment act answer after, isNoted_lines_act]
  exact (List.reverse_perm _).append_right _

end Books

variable {plan : Plan n S K V} {list : Listing n S K V} {consultation : Consultation n S K V}

/-- The account of a map has more by what an operation has in its ledger and by what the servings
within its consultations have in theirs. -/
theorem books_run {map : Fin n}
    (hconsult : ∀ other hook deployment,
      Books map deployment (ledgers map (plan.servingsOfHook list other hook deployment))
        (plan.consult consultation other hook deployment).2)
    (operation : Operation n K V α) (deployment : Deployment n S K V) :
    let moments := operation.trace (plan.respond consultation) deployment
    Books map deployment (ledgers map (plan.servingsAmong list moments) ++ ledger map moments)
      (operation.run (plan.respond consultation) deployment).2 := by
  induction operation generalizing deployment with
  | done result => exact .of_note (List.nil_append _).symm rfl
  | act step rest ih =>
      set answered := plan.respond consultation step deployment with hanswered
      set moment : Moment n S K V := ⟨step, answered.1, deployment, answered.2⟩ with hmoment
      have hstep : Books map deployment
          (ledgers map (plan.servingsWithin list moment) ++ moment.lines map) answered.2 := by
        cases step with
        | act act => exact .act plan.enumeration deployment act answered.1 answered.2
        | consult other hook =>
            unfold Books
            rw [List.filter_append, isNoted_lines_consult, List.append_nil]
            exact hconsult other hook deployment
      -- the servings within later steps come to stand before the lines of this one
      refine (hstep.trans (ih answered.1 answered.2)).perm ?_
      rw [Program.trace_act, ← hanswered, ← hmoment, Plan.servingsAmong_cons,
        ledgers_append, ledger_cons, List.append_assoc, List.append_assoc]
      refine .append_left _ ?_
      rw [← List.append_assoc, ← List.append_assoc]
      exact List.perm_append_comm.append_right _

/-- The account of a map has more in the end by what all servings have in their ledgers. -/
theorem accrues_books (plan : Plan n S K V) (map : Fin n) :
    Accrues plan fun earlier servings later => Books map earlier (ledgers map servings) later where
  refl deployment := .of_note (List.nil_append _).symm rfl
  trans h h' := by
    rw [ledgers_append]
    exact h.trans h'
  enter deployment other hook := by
    unfold Plan.enter
    split
    · exact .of_note (List.nil_append _).symm rfl
    · exact .of_note rfl rfl
  resume deployment other call outcome remember := by
    refine .of_note rfl ?_
    cases outcome <;> rfl
  leave deployment other hook verdict := .of_note rfl rfl
  gather deployment := .of_note rfl rfl
  request list consultation hconsult other request deployment := by
    rw [Plan.servingsOfRequest, ledgers_append, ledgers_singleton]
    exact books_run hconsult (plan.operation other request) deployment

end ExpiringMap
