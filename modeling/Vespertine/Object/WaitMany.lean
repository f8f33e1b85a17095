import Vespertine.Object.SocketWait

/-!
# Waiting on many sockets

`WaitOp::Many` beside `WaitOp::One`: which of the two polls is ready, in one state of the buses, and
which signals are reported.  The tests of `READABLE` and `PEER_CLOSED` agree.  `WRITABLE` is tested
by `WaitOp::One` only.
-/

namespace Vespertine
namespace SocketWait

variable {κ : Type} [DecidableEq κ]

/-- The poll is over. -/
def Phase.Settled : Phase κ → Prop
  | .pending .. | .returned .. => True
  | _ => False

/-- What one task does alone. -/
def alone (task : Waker) (steps : Nat) : List (Input κ) :=
  List.replicate steps (.advance task none)

/-- The end of a poll that no other task and no drop comes into. -/
def PollsAlone (state : State κ) (task : Waker) (op : Op κ) (final : State κ) : Prop :=
  ∃ steps, (machine κ).run (state.setPhase task (.polling op)) (alone task steps) = .ok final ∧
    (final.tasks task).Settled

/-- `WaitOp::One` is ready. -/
def OneReady (state : State κ) (task : Waker) (endpoint : Endpoint κ) (signal : Signal) : Prop :=
  ∃ final, PollsAlone state task (.waitOne endpoint signal) final ∧
    final.tasks task = .returned (.ok 0) []

/-- The signals there are. -/
def signals : List Signal := [.READABLE, .WRITABLE, .PEER_CLOSED]

/-- Of the requested signals exactly those are reported for which `WaitOp::One` is ready. -/
structure Reports (state : State κ) (task : Waker) (item : Endpoint κ × Signal) (found : Signal) :
    Prop where
  exact_set : ∀ signal ∈ signals, found.contains signal = true ↔
    item.2.contains signal = true ∧ OneReady state task item.1 signal
  nothing_else : found.bits.toNat < 8

/-- `WaitOp::Many` is ready if and only if `WaitOp::One` is for a requested signal of an item, and
reports those signals. -/
def AgreesWithOne (state : State κ) (task : Waker) (items : List (Endpoint κ × Signal)) : Prop :=
  ∃ final, PollsAlone state task (.waitMany items) final ∧
    ((∃ pending, final.tasks task = .returned (.ok 0) pending) ↔
      ∃ item ∈ items, ∃ signal ∈ signals,
        item.2.contains signal = true ∧ OneReady state task item.1 signal) ∧
    ∀ pending, final.tasks task = .returned (.ok 0) pending →
      List.Forall₂ (Reports state task) items pending

section Polls

variable {state next final : State κ} {task : Waker} {op : Op κ} {endpoint : Endpoint κ}
  {signal : Signal} {items rest : List (Endpoint κ × Signal)} {phase : Phase κ} {steps : Nat}

omit [DecidableEq κ] in
@[simp] theorem setPhase_setPhase (state : State κ) (task : Waker) (first second : Phase κ) :
    (state.setPhase task first).setPhase task second = state.setPhase task second := by
  rw [State.setPhase, State.setPhase, State.setPhase, Function.update_idem]

/-- A poll that is over does not go on. -/
theorem advance_settled (settled : (state.tasks task).Settled) :
    advance state task none = .error .disabled := by
  cases phase_eq : state.tasks task with
  | pending op keys => rw [advance, phase_eq]
  | returned result pending => rw [advance, phase_eq]
  | _ =>
      rw [phase_eq] at settled
      exact settled.elim

theorem run_settled (settled : (state.tasks task).Settled)
    (run_eq : (machine κ).run state (alone task steps) = .ok final) : final = state := by
  cases steps with
  | zero => exact (Except.ok.inj run_eq).symm
  | succ steps =>
      obtain ⟨next, step_eq, -⟩ := (machine κ).run_cons_eq_ok run_eq
      have stuck := advance_settled settled
      change advance state task none = .ok next at step_eq
      rw [stuck] at step_eq
      cases step_eq

omit [DecidableEq κ] in
theorem alone_add (task : Waker) (first more : Nat) :
    (alone task (first + more) : List (Input κ)) = alone task first ++ alone task more :=
  List.replicate_add ..

/-- A poll has one end. -/
theorem PollsAlone.unique {first second : State κ} (left : PollsAlone state task op first)
    (right : PollsAlone state task op second) : first = second := by
  obtain ⟨m, left_eq, left_settled⟩ := left
  obtain ⟨n, right_eq, right_settled⟩ := right
  rcases Nat.le_total m n with le | le
  · obtain ⟨more, rfl⟩ := Nat.exists_eq_add_of_le le
    rw [alone_add, (machine κ).run_append_ok _ left_eq] at right_eq
    exact (run_settled left_settled right_eq).symm
  · obtain ⟨more, rfl⟩ := Nat.exists_eq_add_of_le le
    rw [alone_add, (machine κ).run_append_ok _ right_eq] at left_eq
    exact run_settled right_settled left_eq

/-- One step, and then more. -/
theorem run_advance (step_eq : advance state task none = .ok next)
    (run_eq : (machine κ).run next (alone task steps) = .ok final) :
    (machine κ).run state (alone task (steps + 1)) = .ok final :=
  (@Machine.run_cons_ok _ _ _ (machine κ) state next (.advance task none) _ step_eq).trans run_eq

/-- A poll that registers returns `Pending`. -/
theorem register_run {keys : List (Key κ)} {slots : List (Slot κ)} {lock : Option (Endpoint κ)}
    (phase_eq : state.tasks task = .registering op keys slots lock) :
    ∃ steps final, (machine κ).run state (alone task steps) = .ok final ∧
      final.tasks task = .pending op keys := by
  induction slots generalizing state with
  | nil =>
      have step_eq : advance state task none =
          .ok ((state.unlock lock).setPhase task (.pending op keys)) := by
        rw [advance, phase_eq]
      exact ⟨1, _, run_advance step_eq rfl, setPhase_tasks_self _⟩
  | cons slot slots ih =>
      have step_eq : advance state task none = .ok ((state.setWaker slot (some task)).setPhase task
          (.registering op keys slots lock)) := by
        rw [advance, phase_eq]
      obtain ⟨steps, final, run_eq, final_eq⟩ := ih (setPhase_tasks_self _)
      exact ⟨steps + 1, final, run_advance step_eq run_eq, final_eq⟩

/-- The poll of one condition. -/
theorem one_run {key : Key κ} (unlocked : ∀ endpoint, state.owner endpoint = none)
    (keys_eq : signalKeys endpoint signal = [key]) :
    ∃ final, PollsAlone state task (.waitOne endpoint signal) final ∧
      (final.tasks task = .returned (.ok 0) [] ↔ state.unmet key = false) := by
  have begin_eq : advance (state.setPhase task (.polling (.waitOne endpoint signal))) task none =
      .ok (state.setPhase task (.checking endpoint signal [key] none)) := by
    rw [advance, setPhase_tasks_self]
    simp only [setPhase_setPhase, keys_eq]
  have check_eq : advance (state.setPhase task (.checking endpoint signal [key] none)) task none =
      .ok (state.setPhase task
        (.checking endpoint signal [] (if state.unmet key then some key else none))) := by
    rw [advance, setPhase_tasks_self]
    simp only [setPhase_setPhase]
    exact if_pos (unlocked key.bus)
  cases unmet : state.unmet key with
  | false =>
      have end_eq : advance (state.setPhase task (.checking endpoint signal [] none)) task none =
          .ok (state.finish task (.ok 0)) := by
        rw [advance, setPhase_tasks_self]
        simp only [State.finish, setPhase_setPhase]
      rw [unmet] at check_eq
      have ended : (state.finish task (.ok 0)).tasks task = .returned (.ok 0) [] :=
        setPhase_tasks_self _
      refine ⟨state.finish task (.ok 0), ⟨3, run_advance begin_eq (run_advance check_eq
        (run_advance end_eq rfl)), ?_⟩, iff_of_true ended rfl⟩
      rw [ended]
      trivial
  | true =>
      have block_eq : advance (state.setPhase task (.checking endpoint signal [] (some key))) task
          none = .ok (state.setPhase task
            (.registering (.waitOne endpoint signal) [key] [key.slot] none)) := by
        rw [advance, setPhase_tasks_self]
        simp only [setPhase_setPhase]
      rw [unmet] at check_eq
      have registering : (state.setPhase task (.registering (.waitOne endpoint signal) [key]
          [key.slot] none)).tasks task = _ := setPhase_tasks_self _
      obtain ⟨steps, final, run_eq, ended⟩ := register_run registering
      refine ⟨final, ⟨_, run_advance begin_eq (run_advance check_eq
        (run_advance block_eq run_eq)), ?_⟩, iff_of_false ?_ Bool.true_eq_false.mp⟩
      · rw [ended]
        trivial
      · rw [ended]
        rintro ⟨⟩

/-- What `WaitOp::Many` finds of an item. -/
def State.scan (state : State κ) (item : Endpoint κ × Signal) : Signal :=
  state.scanClosed item.1 item.2 (state.scanReadable item.1 item.2)

/-- The items are tested in order. -/
theorem scan_run {pending : List Signal} (unlocked : ∀ endpoint, state.owner endpoint = none) :
    ∃ steps, (machine κ).run (state.setPhase task (.scanning items rest pending none))
      (alone task steps) =
        .ok (state.setPhase task (.scanning items [] (pending ++ rest.map state.scan) none)) := by
  induction rest generalizing pending with
  | nil => exact ⟨0, by rw [List.map_nil, List.append_nil]; rfl⟩
  | cons item rest ih =>
      obtain ⟨endpoint, signal⟩ := item
      have first_eq : advance (state.setPhase task
          (.scanning items ((endpoint, signal) :: rest) pending none)) task none =
          .ok (state.setPhase task (.scanning items ((endpoint, signal) :: rest) pending
            (some (state.scanReadable endpoint signal)))) := by
        rw [advance, setPhase_tasks_self]
        simp only [setPhase_setPhase]
        exact if_pos fun _ => unlocked endpoint
      have second_eq : advance (state.setPhase task (.scanning items ((endpoint, signal) :: rest)
          pending (some (state.scanReadable endpoint signal)))) task none =
          .ok (state.setPhase task
            (.scanning items rest (pending ++ [state.scan (endpoint, signal)]) none)) := by
        rw [advance, setPhase_tasks_self]
        simp only [setPhase_setPhase]
        rfl
      obtain ⟨steps, run_eq⟩ := @ih (pending ++ [state.scan (endpoint, signal)])
      rw [List.append_assoc, List.singleton_append, ← List.map_cons] at run_eq
      exact ⟨steps + 2, run_advance first_eq (run_advance second_eq run_eq)⟩

/-- The poll of many items is ready if a test has shown something, and reports what they showed. -/
theorem many_run (unlocked : ∀ endpoint, state.owner endpoint = none) :
    ∃ final, PollsAlone state task (.waitMany items) final ∧
      ((∃ item ∈ items, state.scan item ≠ .none) ∧
          final.tasks task = .returned (.ok 0) (items.map state.scan) ∨
        (∀ item ∈ items, state.scan item = .none) ∧
          final.tasks task = .pending (.waitMany items) (Op.waitMany items).keys) := by
  have begin_eq : advance (state.setPhase task (.polling (.waitMany items))) task none =
      .ok (state.setPhase task (.scanning items items [] none)) := by
    rw [advance, setPhase_tasks_self]
    simp only [setPhase_setPhase]
  obtain ⟨scans, scan_eq⟩ := @scan_run κ _ state task items items [] unlocked
  rw [List.nil_append] at scan_eq
  have end_eq : advance (state.setPhase task (.scanning items [] (items.map state.scan) none))
      task none = .ok (state.afterScan task items (items.map state.scan)) := by
    rw [advance, setPhase_tasks_self]
    simp only [State.afterScan, setPhase_setPhase]
  have any_iff : (items.map state.scan).any (fun signal => signal ≠ .none) = true ↔
      ∃ item ∈ items, state.scan item ≠ .none := by
    simp
  have joined {steps : Nat} {final : State κ}
      (run_eq : (machine κ).run (state.afterScan task items (items.map state.scan))
        (alone task steps) = .ok final) :
      (machine κ).run (state.setPhase task (.polling (.waitMany items)))
        (alone task (scans + (steps + 1) + 1)) = .ok final := by
    apply run_advance begin_eq
    rw [alone_add, (machine κ).run_append_ok _ scan_eq]
    exact run_advance end_eq run_eq
  by_cases shown : ∃ item ∈ items, state.scan item ≠ .none
  · have ended : (state.afterScan task items (items.map state.scan)).tasks task =
        .returned (.ok 0) (items.map state.scan) := by
      rw [State.afterScan, if_pos (any_iff.mpr shown), setPhase_tasks_self]
    refine ⟨_, ⟨_, @joined 0 _ rfl, ?_⟩, .inl ⟨shown, ended⟩⟩
    rw [ended]
    trivial
  · have registering : (state.afterScan task items (items.map state.scan)).tasks task =
        .registering (.waitMany items) (Op.waitMany items).keys
          (items.map fun item => .read item.1) none := by
      rw [State.afterScan, if_neg (mt any_iff.mp shown), setPhase_tasks_self]
    obtain ⟨steps, final, run_eq, ended⟩ := register_run registering
    refine ⟨final, ⟨_, joined run_eq, ?_⟩, .inr ⟨by simpa using shown, ended⟩⟩
    rw [ended]
    trivial

theorem oneReady_iff {key : Key κ} (unlocked : ∀ endpoint, state.owner endpoint = none)
    (keys_eq : signalKeys endpoint signal = [key]) :
    OneReady state task endpoint signal ↔ state.unmet key = false := by
  obtain ⟨final, polls, returned_iff⟩ :=
    @one_run κ _ state task endpoint signal key unlocked keys_eq
  rw [← returned_iff]
  constructor
  · rintro ⟨other, other_polls, returned⟩
    rwa [polls.unique other_polls]
  · exact fun returned => ⟨final, polls, returned⟩

omit [DecidableEq κ] in
/-- The tests of `WaitOp::Many` are those of `WaitOp::One`, but for `WRITABLE`. -/
theorem scan_eq (state : State κ) (item : Endpoint κ × Signal) :
    ∃ readable closed : Bool,
      (readable = true ↔ item.2.contains .READABLE = true ∧
        state.unmet (.readable item.1) = false) ∧
      (closed = true ↔ item.2.contains .PEER_CLOSED = true ∧
        state.unmet (.peerClosed item.1) = false) ∧
      state.scan item = match readable, closed with
        | false, false => .none
        | true, false => .READABLE
        | false, true => .PEER_CLOSED
        | true, true => Signal.READABLE.insert .PEER_CLOSED := by
  refine ⟨item.2.contains .READABLE && !state.unmet (.readable item.1),
    item.2.contains .PEER_CLOSED && !state.unmet (.peerClosed item.1), by simp, by simp, ?_⟩
  simp only [State.scan, State.scanReadable, State.scanClosed, State.unmet]
  cases item.2.contains .READABLE <;> cases item.2.contains .PEER_CLOSED <;>
    cases (state.bus item.1).buffer.isEmpty <;> cases (state.bus item.1).isClosed <;> rfl

/-- An item reports what `WaitOp::One` finds, if it does not ask for room that is there. -/
theorem scan_reports_iff (unlocked : ∀ endpoint, state.owner endpoint = none)
    (item : Endpoint κ × Signal) :
    Reports state task item (state.scan item) ↔
      (item.2.contains .WRITABLE = true → state.unmet (.writable item.1) = true) := by
  obtain ⟨readable, closed, readable_iff, closed_iff, found_eq⟩ := scan_eq state item
  have readable_one := @oneReady_iff κ _ state task item.1 .READABLE _ unlocked rfl
  have writable_one := @oneReady_iff κ _ state task item.1 .WRITABLE _ unlocked rfl
  have closed_one := @oneReady_iff κ _ state task item.1 .PEER_CLOSED _ unlocked rfl
  have found_readable : (state.scan item).contains .READABLE = readable := by
    rw [found_eq]
    cases readable <;> cases closed <;> rfl
  have found_closed : (state.scan item).contains .PEER_CLOSED = closed := by
    rw [found_eq]
    cases readable <;> cases closed <;> rfl
  have found_writable : (state.scan item).contains .WRITABLE = false := by
    rw [found_eq]
    cases readable <;> cases closed <;> rfl
  have found_lt : (state.scan item).bits.toNat < 8 := by
    rw [found_eq]
    cases readable <;> cases closed <;> decide
  constructor
  · intro reports asks
    have exact_set := reports.exact_set .WRITABLE (by decide)
    rw [found_writable, writable_one] at exact_set
    by_contra room
    exact Bool.false_ne_true (exact_set.mpr ⟨asks, Bool.eq_false_of_not_eq_true room⟩)
  · refine fun blocked => ⟨fun signal mem => ?_, found_lt⟩
    rcases List.mem_cons.mp mem with rfl | mem
    · rw [found_readable, readable_iff, readable_one]
    rcases List.mem_cons.mp mem with rfl | mem
    · rw [found_writable, writable_one]
      refine iff_of_false Bool.false_ne_true fun ⟨asks, room⟩ => ?_
      rw [blocked asks] at room
      cases room
    · rw [List.mem_singleton.mp mem, found_closed, closed_iff, closed_one]

omit [DecidableEq κ] in
theorem scan_none_iff (state : State κ) (item : Endpoint κ × Signal) :
    state.scan item ≠ .none ↔ ∃ signal ∈ signals, (state.scan item).contains signal = true := by
  obtain ⟨readable, closed, -, -, found_eq⟩ := scan_eq state item
  rw [found_eq]
  cases readable <;> cases closed <;> decide

end Polls

/-- `WaitOp::Many` agrees with `WaitOp::One` if and only if no item asks for room in a ring that has
some, or that is closed. -/
theorem wait_many_agrees_iff {state : State κ} {task : Waker}
    {items : List (Endpoint κ × Signal)} (unlocked : ∀ endpoint, state.owner endpoint = none) :
    AgreesWithOne state task items ↔
      ∀ item ∈ items, item.2.contains .WRITABLE = true →
        (state.bus item.1.peer).buffer.isFull = true ∧
          (state.bus item.1.peer).isClosed = false := by
  have unmet_iff (endpoint : Endpoint κ) : state.unmet (.writable endpoint) = true ↔
      (state.bus endpoint.peer).buffer.isFull = true ∧
        (state.bus endpoint.peer).isClosed = false := by
    simp [State.unmet]
  simp only [← unmet_iff]
  obtain ⟨final, polls, ended⟩ := @many_run κ _ state task items unlocked
  have reports_iff (item : Endpoint κ × Signal) := @scan_reports_iff κ _ state task unlocked item
  constructor
  · rintro ⟨other, other_polls, ready_iff, reports⟩ item mem
    obtain rfl := other_polls.unique polls
    by_contra room
    rw [Classical.not_imp, Bool.not_eq_true] at room
    have one_ready := (@oneReady_iff κ _ state task item.1 .WRITABLE _ unlocked rfl).mpr room.2
    obtain ⟨pending, returned⟩ :=
      ready_iff.mpr ⟨item, mem, .WRITABLE, by decide, room.1, one_ready⟩
    rcases ended with ⟨-, ended⟩ | ⟨-, ended⟩
    · have same := reports _ ended
      rw [List.forall₂_map_right_iff, List.forall₂_same] at same
      have blocked := (reports_iff item).mp (same item mem) room.1
      rw [room.2] at blocked
      cases blocked
    · rw [ended] at returned
      cases returned
  · intro blocked
    have reports (item : Endpoint κ × Signal) (mem : item ∈ items) :
        Reports state task item (state.scan item) := (reports_iff item).mpr (blocked item mem)
    have shown_iff : (∃ item ∈ items, state.scan item ≠ .none) ↔
        ∃ item ∈ items, ∃ signal ∈ signals,
          item.2.contains signal = true ∧ OneReady state task item.1 signal := by
      refine exists_congr fun item => and_congr_right fun mem => ?_
      rw [scan_none_iff]
      exact exists_congr fun signal =>
        and_congr_right fun known => (reports item mem).exact_set signal known
    refine ⟨final, polls, ?_, fun pending returned => ?_⟩
    · rw [← shown_iff]
      rcases ended with ⟨shown, ended⟩ | ⟨quiet, ended⟩
      · exact iff_of_true ⟨_, ended⟩ shown
      · refine iff_of_false ?_ (by simpa using quiet)
        rw [ended]
        rintro ⟨pending, ⟨⟩⟩
    · rcases ended with ⟨-, ended⟩ | ⟨-, ended⟩
      · rw [ended] at returned
        cases returned
        rw [List.forall₂_map_right_iff, List.forall₂_same]
        exact reports
      · rw [ended] at returned
        cases returned

/-- One ring is empty, and the peer is asked for as well. -/
theorem wait_many_agrees_iff_quiet :
    AgreesWithOne (State.new Unit) 1 [(left, .READABLE), (right, .PEER_CLOSED)] :=
  (wait_many_agrees_iff fun _ => rfl).mpr (by decide)

/-- There is room to write, and `WaitOp::Many` waits for it. -/
theorem wait_many_sleeps :
    (∃ final, PollsAlone (State.new Unit) 1 (.waitMany [(left, .WRITABLE)]) final ∧
      final.tasks 1 = .pending (.waitMany [(left, .WRITABLE)]) [.writable left]) ∧
      OneReady (State.new Unit) 1 left .WRITABLE ∧
      ¬AgreesWithOne (State.new Unit) 1 [(left, .WRITABLE)] := by
  obtain ⟨final, polls, asleep⟩ : ∃ final,
      PollsAlone (State.new Unit) 1 (.waitMany [(left, .WRITABLE)]) final ∧
        final.tasks 1 = .pending (.waitMany [(left, .WRITABLE)]) [.writable left] :=
    ⟨_, ⟨6, rfl, trivial⟩, rfl⟩
  have one_ready : OneReady (State.new Unit) 1 left .WRITABLE := ⟨_, ⟨3, rfl, trivial⟩, rfl⟩
  refine ⟨⟨final, polls, asleep⟩, one_ready, ?_⟩
  rintro ⟨other, other_polls, ready_iff, -⟩
  obtain rfl := other_polls.unique polls
  obtain ⟨pending, returned⟩ :=
    ready_iff.mpr ⟨_, List.mem_singleton_self _, .WRITABLE, by decide, by decide, one_ready⟩
  rw [asleep] at returned
  cases returned

end SocketWait
end Vespertine
