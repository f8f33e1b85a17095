import Vespertine.Library.Transition
import Vespertine.Object.Handle

/-!
# The history of a handle table

Handles come from a counter, which `insert_at` can move.  As long as the counter does not wrap
around, it is above every number that was ever used: a new handle has a new number, and an old
number refers to the object that was put there last.
-/

namespace Vespertine
namespace HandleTable

/-- The largest `usize`. -/
def usizeMax : Nat := wordSize - 1

inductive Op (ω : Type) where
  | insert (object : ω) (rights : AccessRights)
  | insertAt (id : HandleID) (object : ω) (rights : AccessRights)
  | close (id : HandleID)
  | duplicate (id : HandleID) (requestedRights : AccessRights)

/-- An operation, and the handle that it has added or removed if it has not failed. -/
structure Record (ω : Type) where
  op : Op ω
  result : Except InvocationError HandleID

variable {ω : Type}

/-- An operation that fails leaves the table as it is. -/
def perform (table : HandleTable ω) : Op ω → Except InvocationError HandleID × HandleTable ω
  | .insert object rights =>
      let (id, table) := table.insert object rights
      (.ok id, table)
  | .insertAt id object rights => (.ok id, table.insertAt id object rights)
  | .close id =>
      match table.close id with
      | .ok table => (.ok id, table)
      | .error problem => (.error problem, table)
  | .duplicate id requestedRights =>
      match table.duplicate id requestedRights with
      | .ok (new, table) => (.ok new, table)
      | .error problem => (.error problem, table)

/-- The record has put something under the number. -/
def Record.Names (record : Record ω) (id : HandleID) : Prop :=
  record.result = .ok id ∧ ∀ closed, record.op ≠ .close closed

/-- The record has put something under a number of its own choice. -/
def Record.Draws (record : Record ω) (id : HandleID) : Prop :=
  record.Names id ∧ ∀ at' object rights, record.op ≠ .insertAt at' object rights

/-- What was last put under a number and not closed; the last record is the first of the list. -/
def named : List (Record ω) → HandleID → Option (HandleEntry ω)
  | [] => fun _ => none
  | ⟨_, .error _⟩ :: earlier => named earlier
  | ⟨.insert object rights, .ok new⟩ :: earlier =>
      Function.update (named earlier) new (some ⟨rights, object⟩)
  | ⟨.insertAt _ object rights, .ok new⟩ :: earlier =>
      Function.update (named earlier) new (some ⟨rights, object⟩)
  | ⟨.duplicate id rights, .ok new⟩ :: earlier =>
      Function.update (named earlier) new
        ((named earlier id).map fun entry => ⟨rights, entry.object⟩)
  | ⟨.close _, .ok closed⟩ :: earlier => Function.update (named earlier) closed none

/-- A table and what was done to it. -/
structure Log (ω : Type) where
  table : HandleTable ω
  history : List (Record ω)

/-- Numbers below `usize::MAX` are given, and none is drawn when the counter is at its end. -/
def Counted (log : Log ω) : Op ω → Prop
  | .insert _ _ => log.table.nextId < usizeMax
  | .insertAt id _ _ => id < usizeMax
  | .close _ => True
  | .duplicate id requestedRights => ∀ entry, log.table.get id = some entry →
      entry.rights.contains requestedRights = true → log.table.nextId < usizeMax

def machine : Machine (Log ω) (Op ω) Panic where
  step log op :=
    let (result, table) := log.table.perform op
    .ok ⟨table, ⟨op, result⟩ :: log.history⟩
  permitted := Counted

/-! ## The invariant -/

/-- The counter is above all numbers that were used, and the entries are those of the history. -/
structure Sound (log : Log ω) : Prop where
  below : ∀ record ∈ log.history, ∀ id, record.Names id → id < log.table.nextId
  entries_eq : log.table.entries = named log.history
  nextId_le : log.table.nextId ≤ usizeMax
  /-- A number that is drawn was not used before. -/
  fresh : log.history.Pairwise fun later earlier => ∀ id, later.Draws id → ¬earlier.Names id
  given : ∀ record ∈ log.history, ∀ id object rights,
    record.op = .insertAt id object rights → record.result = .ok id
  /-- Only a number that names something is closed. -/
  closes : ∀ later earlier id, log.history = later ++ ⟨.close id, .ok id⟩ :: earlier →
    named earlier id ≠ none

section Invariant

variable {log : Log ω} {op : Op ω} {table : HandleTable ω} {history : List (Record ω)}
  {id : HandleID}

/-- An entry was put there. -/
theorem names_of_named {entry : HandleEntry ω} (named_eq : named history id = some entry) :
    ∃ record ∈ history, record.Names id := by
  induction history generalizing entry with
  | nil => cases named_eq
  | cons record earlier ih =>
      have old {entry : HandleEntry ω} (named_eq : named earlier id = some entry) :
          ∃ older ∈ record :: earlier, older.Names id := by
        obtain ⟨older, mem, names⟩ := ih named_eq
        exact ⟨older, List.mem_cons_of_mem record mem, names⟩
      obtain ⟨op, _ | new⟩ := record
      · rw [named] at named_eq
        exact old named_eq
      · by_cases same : id = new
        · cases op with
          | close closed =>
              rw [named, same, Function.update_self] at named_eq
              cases named_eq
          | _ => exact ⟨_, List.mem_cons_self, same ▸ rfl, nofun⟩
        · cases op with
          | _ =>
              rw [named, Function.update_of_ne same] at named_eq
              exact old named_eq

/-- The history follows the entries. -/
theorem perform_entries (entries_eq : table.entries = named history) :
    (table.perform op).2.entries = named (⟨op, (table.perform op).1⟩ :: history) := by
  cases op with
  | insert object rights =>
      rw [perform, named, ← entries_eq]
      rfl
  | insertAt id object rights =>
      rw [perform, named, ← entries_eq]
      rfl
  | close id =>
      rw [perform]
      cases found : table.entries id with
      | none =>
          simp only [close, found]
          exact entries_eq
      | some entry =>
          simp only [close, found, named, ← entries_eq]
  | duplicate id requestedRights =>
      rw [perform]
      cases found : table.entries id with
      | none =>
          simp only [duplicate, found]
          exact entries_eq
      | some entry =>
          by_cases enough : entry.rights.contains requestedRights = true
          · simp only [duplicate, found, if_pos enough, named, ← entries_eq, Option.map_some]
            rfl
          · simp only [duplicate, found, if_neg enough]
            exact entries_eq

/-- The counter moves up, past the number that is used. -/
structure MovesUp (table after : HandleTable ω) (record : Record ω) : Prop where
  le : table.nextId ≤ after.nextId
  nextId_le : after.nextId ≤ usizeMax
  below : ∀ id, record.Names id → id < after.nextId
  drawn : ∀ id, record.Draws id → id = table.nextId

theorem insert_movesUp {object : ω} {rights : AccessRights} (room : table.nextId < usizeMax) :
    MovesUp table (table.insert object rights).2 ⟨op, .ok table.nextId⟩ := by
  have next_eq : (table.insert object rights).2.nextId = table.nextId + 1 :=
    Nat.mod_eq_of_lt (show table.nextId + 1 < wordSize by simp only [usizeMax] at room; omega)
  refine ⟨by omega, by omega, fun id names => ?_, fun id draws => ?_⟩
  · rw [next_eq, ← Except.ok.inj names.1]
    exact Nat.lt_succ_self _
  · exact (Except.ok.inj draws.1.1).symm

/-- An operation that uses no number. -/
theorem stay_movesUp (nextId_le : table.nextId ≤ usizeMax) {after : HandleTable ω}
    (same : after.nextId = table.nextId) {record : Record ω} (unused : ∀ id, ¬record.Names id) :
    MovesUp table after record :=
  ⟨same.ge, same ▸ nextId_le, fun id names => absurd names (unused id),
    fun id draws => absurd draws.1 (unused id)⟩

theorem perform_movesUp (nextId_le : table.nextId ≤ usizeMax)
    (counted : Counted ⟨table, history⟩ op) :
    MovesUp table (table.perform op).2 ⟨op, (table.perform op).1⟩ := by
  cases op with
  | insert object rights => exact insert_movesUp counted
  | insertAt id object rights =>
      have id_lt : id < usizeMax := counted
      have drawn (other : HandleID) :
          ¬Record.Draws ⟨.insertAt id object rights, .ok id⟩ other :=
        fun draws => draws.2 id object rights rfl
      by_cases behind : table.nextId ≤ id
      · have moved : (table.insertAt id object rights).nextId = id + 1 :=
          (if_pos behind).trans (Nat.mod_eq_of_lt (Nat.lt_sub_iff_add_lt.mp id_lt))
        refine ⟨?_, ?_, fun other names => ?_, fun other draws => absurd draws (drawn other)⟩
        · exact moved ▸ Nat.le_succ_of_le behind
        · exact moved ▸ id_lt
        · cases names.1
          exact moved ▸ Nat.lt_succ_self id
      · have stays : (table.insertAt id object rights).nextId = table.nextId := if_neg behind
        refine ⟨stays.ge, stays ▸ nextId_le, fun other names => ?_,
          fun other draws => absurd draws (drawn other)⟩
        cases names.1
        exact stays ▸ Nat.lt_of_not_le behind
  | close id =>
      rw [perform]
      cases found : table.entries id with
      | none =>
          simp only [close, found]
          exact stay_movesUp nextId_le rfl fun _ names => nomatch names.1
      | some entry =>
          simp only [close, found]
          have unused (other : HandleID) : ¬Record.Names (⟨.close id, .ok id⟩ : Record ω) other :=
            fun names => names.2 id rfl
          refine stay_movesUp nextId_le ?_ unused
          rfl
  | duplicate id requestedRights =>
      rw [perform]
      cases found : table.entries id with
      | none =>
          simp only [duplicate, found]
          exact stay_movesUp nextId_le rfl fun _ names => nomatch names.1
      | some entry =>
          by_cases enough : entry.rights.contains requestedRights = true
          · simp only [duplicate, found, if_pos enough]
            exact insert_movesUp (counted entry found enough)
          · simp only [duplicate, found, if_neg enough]
            exact stay_movesUp nextId_le rfl fun _ names => nomatch names.1

theorem Sound.new : Sound (⟨.new, []⟩ : Log ω) where
  below := nofun
  entries_eq := rfl
  nextId_le := show 1 ≤ usizeMax by decide
  fresh := .nil
  given := nofun
  closes later earlier id history_eq := by simp at history_eq

theorem perform_close_ok {closed : HandleID}
    (ok : (table.perform (.close id)).1 = .ok closed) : table.entries id ≠ none := by
  intro none_eq
  rw [perform, close, none_eq] at ok
  cases ok

theorem Sound.step (sound : Sound log) (counted : Counted log op) :
    ∃ next, machine.step log op = .ok next ∧ Sound next := by
  have moves := perform_movesUp sound.nextId_le counted
  refine ⟨_, rfl, ?_, perform_entries sound.entries_eq, moves.nextId_le,
    List.pairwise_cons.mpr ⟨fun earlier mem id draws names => ?_, sound.fresh⟩, ?_, ?_⟩
  · intro record mem id names
    rcases List.mem_cons.mp mem with rfl | old
    · exact moves.below id names
    · exact (sound.below record old id names).trans_le moves.le
  · -- What is drawn is the counter, which is above all that was used.
    have lt := sound.below earlier mem id names
    rw [moves.drawn id draws] at lt
    exact lt.false
  · intro record mem id object rights op_eq
    rcases List.mem_cons.mp mem with rfl | old
    · cases op_eq
      rfl
    · exact sound.given record old id object rights op_eq
  · intro later earlier id history_eq
    rcases List.cons_eq_append_iff.mp history_eq with ⟨rfl, cons_eq⟩ | ⟨rest, rfl, rest_eq⟩
    · obtain ⟨record_eq, rfl⟩ := List.cons.inj cons_eq
      obtain ⟨rfl, result_eq⟩ := Record.mk.inj record_eq
      rw [← sound.entries_eq]
      exact perform_close_ok result_eq.symm
    · exact sound.closes rest earlier id rest_eq

theorem named_of_not_names {record : Record ω} (unused : ¬record.Names id)
    (named_eq : named history id = none) : named (record :: history) id = none := by
  obtain ⟨op, _ | new⟩ := record
  · exact named_eq
  · by_cases same : id = new
    · cases op with
      | close closed => rw [named, same, Function.update_self]
      | _ => exact absurd ⟨same ▸ rfl, nofun⟩ unused
    · cases op with
      | _ => rw [named, Function.update_of_ne same, named_eq]

/-- A number that was closed and not given again names nothing. -/
theorem Sound.closed (sound : Sound log) {later earlier : List (Record ω)}
    (history_eq : log.history = later ++ ⟨.close id, .ok id⟩ :: earlier)
    (not_given : ∀ record ∈ later, ∀ object rights, record.op ≠ .insertAt id object rights) :
    log.table.entries id = none := by
  obtain ⟨entry, was⟩ := Option.ne_none_iff_exists'.mp (sound.closes later earlier id history_eq)
  obtain ⟨first, first_mem, first_names⟩ := names_of_named was
  have fresh := sound.fresh
  have given := sound.given
  rw [sound.entries_eq]
  rw [history_eq] at fresh given ⊢
  clear history_eq
  induction later with
  | nil => exact Function.update_self ..
  | cons record later ih =>
      rw [List.cons_append] at fresh given ⊢
      obtain ⟨drawn_fresh, fresh⟩ := List.pairwise_cons.mp fresh
      refine named_of_not_names (fun names => ?_) (ih
        (fun record mem => not_given record (List.mem_cons_of_mem _ mem)) fresh
        fun record mem => given record (List.mem_cons_of_mem _ mem))
      -- The number was used before it was closed, so it is not drawn again.
      refine drawn_fresh first (by simp [first_mem]) id ⟨names, ?_⟩ first_names
      intro at' object rights op_eq
      have result_eq := given record List.mem_cons_self at' object rights op_eq
      cases names.1.symm.trans result_eq
      exact not_given record List.mem_cons_self object rights op_eq

/-- An operation changes only the entry of the number that it returns. -/
theorem perform_other (table : HandleTable ω) (op : Op ω) (other : (table.perform op).1 ≠ .ok id) :
    (table.perform op).2.entries id = table.entries id := by
  cases op with
  | insert object rights =>
      exact Function.update_of_ne (fun same => other (congrArg Except.ok same.symm)) ..
  | insertAt at' object rights =>
      exact Function.update_of_ne (fun same => other (congrArg Except.ok same.symm)) ..
  | close closed =>
      rw [perform] at other ⊢
      cases found : table.entries closed with
      | none => simp only [close, found]
      | some entry =>
          simp only [close, found] at other ⊢
          exact Function.update_of_ne (fun same => other (congrArg Except.ok same.symm)) ..
  | duplicate source requestedRights =>
      rw [perform] at other ⊢
      cases found : table.entries source with
      | none => simp only [duplicate, found]
      | some entry =>
          by_cases enough : entry.rights.contains requestedRights = true
          · simp only [duplicate, found, if_pos enough] at other ⊢
            exact Function.update_of_ne (fun same => other (congrArg Except.ok same.symm)) ..
          · simp only [duplicate, found, if_neg enough]

end Invariant

/-! ## Runs -/

section Runs

/-- In every run in which the counter never wraps around: every number in the table is below it, a
drawn number is new, a closed one is invalid until it is given again, entries change only where an
operation says so, and a number resolves to what was last put there. -/
theorem handles_never_reused {ω : Type} {ops : List (Op ω)}
    (permits : machine.Permits (⟨.new, []⟩ : Log ω) ops) :
    ∃ final, machine.run (⟨.new, []⟩ : Log ω) ops = .ok final ∧
      (∀ id entry, final.table.get id = some entry → id < final.table.nextId) ∧
      (final.history.Pairwise fun later earlier => ∀ id, later.Draws id → ¬earlier.Names id) ∧
      (∀ later earlier id, final.history = later ++ ⟨.close id, .ok id⟩ :: earlier →
        (∀ record ∈ later, ∀ object rights, record.op ≠ .insertAt id object rights) →
          ∀ required, final.table.resolve id required = .error .InvalidHandle) ∧
      (∀ op id, (final.table.perform op).1 ≠ .ok id →
        (final.table.perform op).2.get id = final.table.get id) ∧
      ∀ id required object, final.table.resolve id required = .ok object →
        ∃ rights, named final.history id = some ⟨rights, object⟩ ∧
          rights.contains required = true := by
  obtain ⟨final, run_eq, sound⟩ := machine.run_ok
    (fun _ _ sound counted => Sound.step sound counted) Sound.new permits
  refine ⟨final, run_eq, fun id entry found => ?_, sound.fresh,
    fun later earlier id history_eq not_given required => ?_,
    fun op id other => perform_other final.table op other, fun id required object resolved => ?_⟩
  · have named_eq : named final.history id = some entry := sound.entries_eq ▸ found
    obtain ⟨record, mem, names⟩ := names_of_named named_eq
    exact sound.below record mem id names
  · rw [resolve, resolveEntry, sound.closed history_eq not_given]
    rfl
  · obtain ⟨⟨rights, held⟩, entry_eq, object_eq⟩ := bind_eq_ok.mp resolved
    cases object_eq
    obtain ⟨found, enough⟩ := resolveEntry_ok entry_eq
    exact ⟨rights, sound.entries_eq ▸ found, enough⟩

/-- Two handles, the first of which is closed. -/
theorem handles_never_reused_two : ∃ final,
    machine.run (⟨.new, []⟩ : Log Nat)
      [.insert 7 .READ, .duplicate 1 .READ, .close 1, .insertAt 5 8 .READ, .insert 9 .READ] =
        .ok final ∧
      final.table.resolve 1 .READ = .error .InvalidHandle ∧
      final.table.nextId = 7 := by
  have permits : machine.Permits (⟨.new, []⟩ : Log Nat)
      [.insert 7 .READ, .duplicate 1 .READ, .close 1, .insertAt 5 8 .READ, .insert 9 .READ] := by
    refine machine.permits_cons (by decide : 1 < usizeMax) rfl ?_
    refine machine.permits_cons (fun _ _ _ => (by decide : 2 < usizeMax)) rfl ?_
    refine machine.permits_cons trivial rfl ?_
    refine machine.permits_cons (by decide : 5 < usizeMax) rfl ?_
    exact machine.permits_cons (by decide : 6 < usizeMax) rfl trivial
  obtain ⟨final, run_eq, -, -, closed, -⟩ := handles_never_reused permits
  refine ⟨final, run_eq, ?_, ?_⟩
  · cases run_eq
    refine closed [_, _] [_, _] 1 rfl (fun record mem object rights op_eq => ?_) .READ
    simp only [List.mem_cons, List.not_mem_nil, or_false] at mem
    rcases mem with rfl | rfl
    · cases op_eq
    · cases op_eq
  · cases run_eq
    rfl

/-- The counter is moved to its end, and the number of the first handle is drawn again. -/
theorem counter_wraps : ∃ final,
    machine.run (⟨.new, []⟩ : Log Nat)
      [.insertAt 0 7 .READ, .insertAt (2 ^ 64 - 2) 8 .READ, .insert 9 .READ, .insert 10 .READ] =
        .ok final ∧
      final.history = [⟨.insert 10 .READ, .ok 0⟩, ⟨.insert 9 .READ, .ok (2 ^ 64 - 1)⟩,
        ⟨.insertAt (2 ^ 64 - 2) 8 .READ, .ok (2 ^ 64 - 2)⟩, ⟨.insertAt 0 7 .READ, .ok 0⟩] ∧
      final.table.get 0 = some ⟨.READ, 10⟩ ∧ final.table.nextId = 1 ∧
      final.table.get (2 ^ 64 - 1) = some ⟨.READ, 9⟩ := by
  exact ⟨_, rfl, rfl, rfl, rfl, rfl⟩

end Runs

end HandleTable
end Vespertine
