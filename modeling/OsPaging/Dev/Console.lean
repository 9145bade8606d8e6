import OsPaging.Lib.Ring
import OsPaging.Thread.Semaphore

/-!
# Console input

`con_input` and `getch_intr` of `kern/dev/generic/console.c:136-177`, with the console as
`config_con` sets it up. The characters are in a ring (`Lib.Ring`), the semaphore `cs_rsem` is that
of `Thread.Semaphore`, and every access to the ring and every section of `P` and `V` is a step.

* `con_input` runs in the interrupt handler of the serial device. Device interrupts go to one cpu
  only and are off while a handler runs, so there is one call at a time; but the reader may be on
  another cpu, and goes on meanwhile.
* `getch_intr` has one caller at a time, which may sleep in `P` (`reading`).
* What an event says of its outcome (the character dropped or accepted, whether `P` has returned,
  the character returned) is part of the event.

**`console_fifo`** is the result for whole runs.
-/

namespace OsPaging.Dev

open OsPaging.Lib OsPaging.Thread OsPaging.Vm

variable {T : Type}

def consoleInputBufferSize : Nat := 32

/-- Where `con_input` is: before the step named. -/
inductive ConInputPc
  /-- The test for a full ring. -/
  | test (ch : Int) (nexthead : Nat)
  /-- `cs->cs_gotchars[cs->cs_gotchars_head] = ch`. -/
  | store (ch : Int) (nexthead : Nat)
  /-- `cs->cs_gotchars_head = nexthead`. -/
  | publish (ch : Int) (nexthead : Nat)
  /-- `V(cs->cs_rsem)`. -/
  | v
deriving DecidableEq, Repr

/-- Where `getch_intr` is. -/
inductive GetchPc
  /-- Asleep in `P`, or woken and not yet through. -/
  | asleep
  /-- Before `ret = cs->cs_gotchars[cs->cs_gotchars_tail]`. -/
  | read
  /-- Before the write of `cs_gotchars_tail`. -/
  | advance (ret : UInt8)
  /-- Before the return. -/
  | leave (ret : UInt8)
deriving DecidableEq, Repr

/-- `struct con_softc`, and the calls in progress. -/
structure Console (T : Type) where
  /-- `cs_gotchars`, `cs_gotchars_head` and `cs_gotchars_tail`. -/
  ring : RingBuffer UInt8
  /-- `cs_rsem`. -/
  rsem : Semaphore T
  input : Option ConInputPc
  reading : Option (T × GetchPc)

/-- `config_con`; the characters in `cs_gotchars` are whatever was there. -/
def configCon (gotchars : Nat → UInt8) : Console T := ⟨⟨gotchars, 0, 0⟩, semCreate 0, none, none⟩

inductive ConEvent (T : Type)
  /-- `con_input` is called, and computes `nexthead`. -/
  | input (ch : Int)
  /-- Its test: the ring is full, or not. -/
  | drop (ch : Int)
  | accept (ch : Int)
  | store
  | publish
  | v
  /-- `getch_intr` is called: the first section of its `P`. -/
  | p (t : T) (done : Bool)
  /-- The section of `P` after `wchan_sleep`. -/
  | again (t : T) (done : Bool)
  | read
  | advance
  | ret (ch : UInt8)
deriving DecidableEq, Repr

/-- What `P` leaves `getch_intr` to do. -/
def GetchPc.afterP (done : Bool) : GetchPc := if done then .read else .asleep

namespace Console

/-- One step. -/
def exec [DecidableEq T] (s : Console T) : ConEvent T → Option (Console T)
  | .input ch =>
    match s.input with
    | none =>
      some { s with input := some (.test ch (RingBuffer.next consoleInputBufferSize s.ring.head)) }
    | some _ => none
  | .drop ch =>
    match s.input with
    | some (.test ch' nexthead) =>
      if ch = ch' ∧ nexthead = s.ring.tail then some { s with input := none } else none
    | _ => none
  | .accept ch =>
    match s.input with
    | some (.test ch' nexthead) =>
      if ch = ch' ∧ nexthead ≠ s.ring.tail then
        some { s with input := some (.store ch nexthead) }
      else none
    | _ => none
  | .store =>
    match s.input with
    | some (.store ch nexthead) =>
      some { s with
        ring := s.ring.store (UInt8.ofInt ch)
        input := some (.publish ch nexthead) }
    | _ => none
  | .publish =>
    match s.input with
    | some (.publish _ nexthead) =>
      some { s with ring := { s.ring with head := nexthead }, input := some .v }
    | _ => none
  | .v =>
    match s.input with
    | some .v => s.rsem.vSection.map fun rsem => { s with rsem := rsem, input := none }
    | _ => none
  | .p t done =>
    match s.reading with
    | none =>
      (s.rsem.exec (.p t done)).map fun rsem =>
        { s with rsem := rsem, reading := some (t, .afterP done) }
    | some _ => none
  | .again t done =>
    if s.reading = some (t, .asleep) then
      (s.rsem.exec (.again t done)).map fun rsem =>
        { s with rsem := rsem, reading := some (t, .afterP done) }
    else none
  | .read =>
    match s.reading with
    | some (t, .read) => some { s with reading := some (t, .advance (s.ring.cells s.ring.tail)) }
    | _ => none
  | .advance =>
    match s.reading with
    | some (t, .advance ret) =>
      some { s with
        ring := { s.ring with tail := RingBuffer.next consoleInputBufferSize s.ring.tail }
        reading := some (t, .leave ret) }
    | _ => none
  | .ret ch =>
    match s.reading with
    | some (_, .leave ret) => if ch = ret then some { s with reading := none } else none
    | _ => none

/-- The characters in the ring. -/
def buffered (s : Console T) : List UInt8 := s.ring.contents consoleInputBufferSize

/-- The character that `con_input` is putting in the ring. -/
def putting (s : Console T) : List UInt8 :=
  match s.input with
  | some (.store ch _) | some (.publish ch _) => [UInt8.ofInt ch]
  | _ => []

/-- The character that `getch_intr` has taken and will return. -/
def taken (s : Console T) : List UInt8 :=
  match s.reading with
  | some (_, .leave ret) => [ret]
  | _ => []

/-- The reader is past its `P`, and has not yet moved the tail. -/
def claimed (s : Console T) : Nat :=
  match s.reading with
  | some (_, .read) | some (_, .advance _) => 1
  | _ => 0

/-- A character is in the ring without a unit of the semaphore. -/
def owed (s : Console T) : Nat :=
  match s.input with
  | some .v => 1
  | _ => 0

/-- The reader is past its `P` and has not returned. -/
def PastP (s : Console T) : Prop :=
  match s.reading with
  | none | some (_, .asleep) => False
  | _ => True

end Console

/-- The character of an event that accepts one. -/
def ConEvent.accepted : ConEvent T → Option UInt8
  | .accept ch => some (UInt8.ofInt ch)
  | _ => none

/-- The character of an event that returns one. -/
def ConEvent.returned : ConEvent T → Option UInt8
  | .ret ch => some ch
  | _ => none

/-- The characters that `con_input` has accepted, as the ring holds them. -/
def accepted (es : List (ConEvent T)) : List UInt8 := es.filterMap (·.accepted)

/-- The characters that `getch_intr` has returned. -/
def returned (es : List (ConEvent T)) : List UInt8 := es.filterMap (·.returned)

/-! ## The invariant -/

/-- What `con_input` relies on. -/
def Console.InputOk (s : Console T) : ConInputPc → Prop
  | .test _ nexthead => nexthead = RingBuffer.next consoleInputBufferSize s.ring.head
  | .store _ nexthead => nexthead = RingBuffer.next consoleInputBufferSize s.ring.head ∧
      s.ring.length consoleInputBufferSize ≠ consoleInputBufferSize - 1
  | .publish ch nexthead => nexthead = RingBuffer.next consoleInputBufferSize s.ring.head ∧
      s.ring.length consoleInputBufferSize ≠ consoleInputBufferSize - 1 ∧
      s.ring.cells s.ring.head = UInt8.ofInt ch
  | .v => True

structure ConsoleInv (es : List (ConEvent T)) (s : Console T) : Prop where
  bounds : s.ring.InBounds consoleInputBufferSize
  fifo : accepted es = returned es ++ s.taken ++ s.buffered ++ s.putting
  count : s.rsem.count + s.claimed + s.owed = s.ring.length consoleInputBufferSize
  input : ∀ pc, s.input = some pc → s.InputOk pc
  /-- The character that was read is still the first. -/
  reading : ∀ t ret, s.reading = some (t, .advance ret) → s.ring.cells s.ring.tail = ret

theorem accepted_append (es : List (ConEvent T)) (e : ConEvent T) :
    accepted (es ++ [e]) = accepted es ++ e.accepted.toList := by
  cases e <;> simp [accepted, ConEvent.accepted]

theorem returned_append (es : List (ConEvent T)) (e : ConEvent T) :
    returned (es ++ [e]) = returned es ++ e.returned.toList := by
  cases e <;> simp [returned, ConEvent.returned]

namespace ConsoleInv

variable {es : List (ConEvent T)} {s s' : Console T} {e : ConEvent T}

theorem start (gotchars : Nat → UInt8) : ConsoleInv [] (configCon gotchars : Console T) where
  bounds := ⟨Nat.zero_lt_succ _, Nat.zero_lt_succ _⟩
  fifo := by
    have hempty : (configCon gotchars : Console T).buffered = [] := by
      rw [← List.length_eq_zero_iff, Console.buffered, RingBuffer.length_contents]
      exact Nat.mod_self _
    rw [hempty]
    rfl
  count := (Nat.mod_self _).symm
  input _ h := absurd h (by simp [configCon])
  reading _ _ h := absurd h (by simp [configCon])

section

variable (h : ConsoleInv es s)
include h

theorem input_goes {pc : Option ConInputPc} (hret : e.returned = none)
    (hput : s.putting ++ e.accepted.toList = ({ s with input := pc } : Console T).putting)
    (howed : ({ s with input := pc } : Console T).owed = s.owed)
    (hok : ∀ pc', pc = some pc' → s.InputOk pc') :
    ConsoleInv (es ++ [e]) { s with input := pc } where
  bounds := h.bounds
  fifo := by
    rw [accepted_append, returned_append, hret, h.fifo, List.append_assoc _ s.putting, hput,
      Option.toList_none, List.append_nil]
    rfl
  count := by
    rw [howed]
    exact h.count
  input := hok
  reading := h.reading

/-- The cell that is written is not part of the queue. -/
theorem store {ch : Int} {nexthead : Nat} (hin : s.input = some (.store ch nexthead)) :
    ConsoleInv (es ++ [.store]) { s with
      ring := s.ring.store (UInt8.ofInt ch)
      input := some (.publish ch nexthead) } where
  bounds := h.bounds.store _
  fifo := by
    have hput : s.putting = [UInt8.ofInt ch] := by simp [Console.putting, hin]
    rw [accepted_append, returned_append, h.fifo, hput, Console.buffered, Console.buffered,
      RingBuffer.contents_store h.bounds]
    simp [ConEvent.accepted, ConEvent.returned, Console.taken, Console.putting]
  count := by
    have howed : s.owed = 0 := by simp [Console.owed, hin]
    have := h.count
    rw [howed] at this
    exact this
  input := by
    rintro _ ⟨⟩
    obtain ⟨hnext, hroom⟩ := h.input _ hin
    exact ⟨hnext, hroom, Function.update_self ..⟩
  reading t ret hread := by
    -- the reader has a claim, so the ring is not empty and its head is not its tail
    have hclaim : s.claimed = 1 := by
      have : s.reading = some (t, .advance ret) := hread
      simp [Console.claimed, this]
    have hcount := h.count
    have hne := RingBuffer.place_ne_head h.bounds (i := 0) (by omega)
    rw [Nat.add_zero, Nat.mod_eq_of_lt h.bounds.tail] at hne
    exact (Function.update_of_ne hne _ _).trans (h.reading t ret hread)

theorem publish {ch : Int} {nexthead : Nat} (hin : s.input = some (.publish ch nexthead)) :
    ConsoleInv (es ++ [.publish]) { s with
      ring := { s.ring with head := nexthead }
      input := some .v } := by
  obtain ⟨rfl, hroom, hcell⟩ := h.input _ hin
  refine ⟨h.bounds.publish, ?_, ?_, ?_, h.reading⟩
  · have hput : s.putting = [UInt8.ofInt ch] := by simp [Console.putting, hin]
    have hcontents := RingBuffer.contents_publish h.bounds hroom
    rw [hcell] at hcontents
    have hbuf : ({ s with
        ring := { s.ring with head := RingBuffer.next consoleInputBufferSize s.ring.head }
        input := some .v } : Console T).buffered = s.buffered ++ [UInt8.ofInt ch] := hcontents
    rw [accepted_append, returned_append, h.fifo, hput, hbuf]
    simp [ConEvent.accepted, ConEvent.returned, Console.taken, Console.putting]
  · have hlen := RingBuffer.length_publish h.bounds hroom
    have howed : s.owed = 0 := by simp [Console.owed, hin]
    have hcount := h.count
    rw [howed] at hcount
    refine Eq.trans ?_ hlen.symm
    rw [← hcount]
    rfl
  · rintro _ ⟨⟩
    trivial

theorem v (hin : s.input = some .v) {rsem : Semaphore T} (hv : s.rsem.vSection = some rsem) :
    ConsoleInv (es ++ [.v]) { s with rsem := rsem, input := none } := by
  have howed : s.owed = 1 := by simp [Console.owed, hin]
  have hcount := h.count
  have hlt := RingBuffer.length_lt h.bounds
  rw [howed] at hcount
  have hword : s.rsem.count < wordSize := by
    simp only [consoleInputBufferSize, wordSize] at *
    omega
  obtain ⟨-, rfl⟩ := Semaphore.vSection_ok hv hword
  refine ⟨h.bounds, ?_, ?_, by simp, h.reading⟩
  · have hput : s.putting = [] := by simp [Console.putting, hin]
    rw [accepted_append, returned_append, h.fifo, hput]
    simp [ConEvent.accepted, ConEvent.returned, Console.taken, Console.putting, Console.buffered]
  · rw [← hcount]
    simp only [Console.claimed, Console.owed]
    omega

theorem reader_goes (rsem : Semaphore T) {reading : Option (T × GetchPc)} (hacc : e.accepted = none)
    (hcount : rsem.count + ({ s with reading := reading } : Console T).claimed =
      s.rsem.count + s.claimed)
    (htaken : e.returned.toList ++ ({ s with reading := reading } : Console T).taken = s.taken)
    (hread : ∀ t ret, reading = some (t, .advance ret) → s.ring.cells s.ring.tail = ret) :
    ConsoleInv (es ++ [e]) { s with rsem := rsem, reading := reading } where
  bounds := h.bounds
  fifo := by
    rw [accepted_append, returned_append, hacc, h.fifo, ← htaken]
    simp [Console.buffered, Console.taken, Console.putting]
  count := by
    rw [← h.count, ← hcount]
    rfl
  input := h.input
  reading := hread

theorem p {t : T} {wc : Wchan T} {done : Bool} {rsem : Semaphore T} (hacc : e.accepted = none)
    (hret : e.returned = none) (hclaim : s.claimed = 0) (htaken : s.taken = [])
    (hs : (if ({ s.rsem with wchan := wc }.pSection t).1 = done then
      some ({ s.rsem with wchan := wc }.pSection t).2 else none) = some rsem) :
    ConsoleInv (es ++ [e]) { s with rsem := rsem, reading := some (t, .afterP done) } := by
  rcases Semaphore.pSection_cases hs with ⟨rfl, hpos, rfl⟩ | ⟨rfl, hzero, rfl⟩
  · refine h.reader_goes _ hacc ?_ (by rw [hret, htaken]; rfl) (by simp [GetchPc.afterP])
    rw [hclaim]
    exact Nat.sub_add_cancel hpos
  · refine h.reader_goes _ hacc ?_ (by rw [hret, htaken]; rfl) (by simp [GetchPc.afterP])
    rw [hclaim]
    rfl

theorem read {t : T} (hread : s.reading = some (t, .read)) :
    ConsoleInv (es ++ [.read])
      { s with reading := some (t, .advance (s.ring.cells s.ring.tail)) } := by
  refine h.reader_goes s.rsem rfl ?_ ?_ ?_
  · simp [Console.claimed, hread]
  · simp [Console.taken, hread, ConEvent.returned]
  · rintro _ _ ⟨⟩
    rfl

theorem advance {t : T} {ret : UInt8} (hread : s.reading = some (t, .advance ret)) :
    ConsoleInv (es ++ [.advance]) { s with
      ring := { s.ring with tail := RingBuffer.next consoleInputBufferSize s.ring.tail }
      reading := some (t, .leave ret) } := by
  have hclaim : s.claimed = 1 := by simp [Console.claimed, hread]
  have hcount := h.count
  rw [hclaim] at hcount
  have hne : s.ring.length consoleInputBufferSize ≠ 0 := by omega
  have hlen := RingBuffer.length_advance h.bounds hne
  refine ⟨h.bounds.advance, ?_, ?_, ?_, by simp⟩
  · have htaken : s.taken = [] := by simp [Console.taken, hread]
    have hcontents := RingBuffer.contents_advance h.bounds hne
    rw [h.reading t ret hread] at hcontents
    have hbuf : s.buffered = ret :: ({ s with
        ring := { s.ring with tail := RingBuffer.next consoleInputBufferSize s.ring.tail }
        reading := some (t, .leave ret) } : Console T).buffered := hcontents
    rw [accepted_append, returned_append, h.fifo, htaken, hbuf]
    simp [ConEvent.accepted, ConEvent.returned, Console.taken, Console.putting]
  · have hafter : (s.ring.advance consoleInputBufferSize).length consoleInputBufferSize =
        s.rsem.count + s.owed := by omega
    exact hafter.symm
  · intro pc hin
    have hok := h.input pc hin
    have hroom : s.ring.length consoleInputBufferSize ≠ consoleInputBufferSize - 1 →
        (s.ring.advance consoleInputBufferSize).length consoleInputBufferSize ≠
          consoleInputBufferSize - 1 := by
      have := RingBuffer.length_lt h.bounds
      omega
    cases pc with
    | test ch nexthead => exact hok
    | store ch nexthead => exact ⟨hok.1, hroom hok.2⟩
    | publish ch nexthead => exact ⟨hok.1, hroom hok.2.1, hok.2.2⟩
    | v => trivial

theorem ret {t : T} {ch : UInt8} (hread : s.reading = some (t, .leave ch)) :
    ConsoleInv (es ++ [.ret ch]) { s with reading := none } := by
  refine h.reader_goes s.rsem rfl ?_ ?_ (by simp)
  · simp [Console.claimed, hread]
  · simp [Console.taken, hread, ConEvent.returned]

end

variable [DecidableEq T]

theorem step (h : ConsoleInv es s) (hs : s.exec e = some s') : ConsoleInv (es ++ [e]) s' := by
  -- a statement is taken only at its place
  cases e with (simp only [Console.exec] at hs; split at hs; swap; · cases hs)
  | input ch =>
    rename_i hin
    cases hs
    refine h.input_goes rfl (by simp [Console.putting, hin, ConEvent.accepted])
      (by simp [Console.owed, hin]) ?_
    rintro _ ⟨⟩
    rfl
  | drop ch =>
    rename_i hin
    split_ifs at hs
    cases hs
    exact h.input_goes rfl (by simp [Console.putting, hin, ConEvent.accepted])
      (by simp [Console.owed, hin]) (by simp)
  | accept ch =>
    rename_i hin
    split_ifs at hs with hc
    obtain ⟨rfl, hne⟩ := hc
    cases hs
    refine h.input_goes rfl (by simp [Console.putting, hin, ConEvent.accepted])
      (by simp [Console.owed, hin]) ?_
    rintro _ ⟨⟩
    have hnext : _ = _ := h.input _ hin
    refine ⟨hnext, fun hfull => hne ?_⟩
    rw [hnext]
    exact (RingBuffer.next_head_eq_tail_iff h.bounds).mpr hfull
  | store =>
    rename_i ch nexthead hin
    cases hs
    exact h.store hin
  | publish =>
    rename_i ch nexthead hin
    cases hs
    exact h.publish hin
  | v =>
    rename_i hin
    obtain ⟨rsem, hv, rfl⟩ := Option.map_eq_some_iff.mp hs
    exact h.v hin hv
  | p t done =>
    rename_i hread
    obtain ⟨rsem, hp, rfl⟩ := Option.map_eq_some_iff.mp hs
    simp only [Semaphore.exec] at hp
    split_ifs at hp with hhas hdone
    refine h.p (e := .p t done) rfl rfl ?_ ?_ ((if_pos hdone).trans hp)
    · simp [Console.claimed, hread]
    · simp [Console.taken, hread]
  | again t done =>
    rename_i hread
    obtain ⟨rsem, hp, rfl⟩ := Option.map_eq_some_iff.mp hs
    simp only [Semaphore.exec] at hp
    split_ifs at hp with hmem hdone
    refine h.p (e := .again t done) rfl rfl ?_ ?_ ((if_pos hdone).trans hp)
    · simp [Console.claimed, hread]
    · simp [Console.taken, hread]
  | read =>
    rename_i t hread
    cases hs
    exact h.read hread
  | advance =>
    rename_i t ret hread
    cases hs
    exact h.advance hread
  | ret ch =>
    rename_i t ret hread
    split_ifs at hs with hch
    subst hch
    cases hs
    exact h.ret hread

end ConsoleInv

/-! ## Runs -/

section Runs

variable [DecidableEq T]

/-- What console input is to be, after the events `es`. -/
structure ConsoleFifo (es : List (ConEvent T)) (s : Console T) : Prop where
  /-- The characters returned are the accepted ones, in order. -/
  inOrder : returned es <+: accepted es
  /-- The others are being returned, in the ring, or being put there: none is lost. -/
  kept : accepted es = returned es ++ s.taken ++ s.buffered ++ s.putting
  /-- A character is dropped only when the ring is full. -/
  drop : ∀ ch s', s.exec (.drop ch) = some s' → s.buffered.length = consoleInputBufferSize - 1
  /-- The cell that is written is none of those not yet read. -/
  store : ∀ s', s.exec .store = some s' → s'.buffered = s.buffered ∧
    ∀ i < s.buffered.length, (s.ring.tail + i) % consoleInputBufferSize ≠ s.ring.head
  /-- Nothing changes the cell that the reader has read before it moves the tail. -/
  stable : ∀ t ret, s.reading = some (t, .advance ret) → s.buffered.head? = some ret
  /-- Between the calls the semaphore counts the characters. -/
  count : s.input = none → ¬s.PastP → s.rsem.count = s.buffered.length
  /-- The assertion in `V` holds. -/
  noAssertion : s.input = some .v → (s.exec .v).isSome = true

/-- **Console input is a bounded queue**, in every interleaving of `con_input` with the reader. -/
theorem console_fifo (gotchars : Nat → UInt8) {es : List (ConEvent T)} {s : Console T}
    (hr : Run (fun s e s' => s.exec e = some s') (configCon gotchars) es s) : ConsoleFifo es s := by
  have h : ConsoleInv es s := hr.history (R := ConsoleInv) (.start gotchars)
    fun _ _ _ _ h hs => h.step hs
  have hlen : s.buffered.length = s.ring.length consoleInputBufferSize :=
    RingBuffer.length_contents s.ring
  refine ⟨?_, h.fifo, ?_, ?_, ?_, ?_, ?_⟩
  · rw [h.fifo, List.append_assoc, List.append_assoc]
    exact List.prefix_append _ _
  · intro ch s' hs
    simp only [Console.exec] at hs
    split at hs
    · rename_i ch' nexthead hin
      split_ifs at hs with hc
      have hnext : nexthead = RingBuffer.next consoleInputBufferSize s.ring.head := h.input _ hin
      rw [hlen, ← RingBuffer.next_head_eq_tail_iff h.bounds, ← hnext, hc.2]
    · cases hs
  · intro s' hs
    simp only [Console.exec] at hs
    split at hs
    · cases hs
      refine ⟨RingBuffer.contents_store h.bounds _, fun i hi => ?_⟩
      exact RingBuffer.place_ne_head h.bounds (hlen ▸ hi)
    · cases hs
  · intro t ret hread
    have hclaim : s.claimed = 1 := by simp [Console.claimed, hread]
    have hcount := h.count
    have hcontents := RingBuffer.contents_advance h.bounds (by omega)
    rw [Console.buffered, hcontents, h.reading t ret hread]
    rfl
  · intro hin hpast
    have howed : s.owed = 0 := by simp [Console.owed, hin]
    have hclaim : s.claimed = 0 := by
      unfold Console.claimed
      split
      · rename_i hread
        exact absurd (by simp [Console.PastP, hread]) hpast
      · rename_i hread
        exact absurd (by simp [Console.PastP, hread]) hpast
      · rfl
    have hcount := h.count
    omega
  · intro hin
    have hcount := h.count
    have hlt := RingBuffer.length_lt h.bounds
    have hnz : (s.rsem.count + 1) % wordSize ≠ 0 := by
      simp only [consoleInputBufferSize, wordSize] at *
      omega
    simp only [Console.exec, hin, Semaphore.vSection, if_neg hnz]
    rfl

/-- A character arrives while the reader sleeps, and another while it takes the first. -/
def twoChars : List (ConEvent Nat) :=
  [.p 1 false, .input 104, .accept 104, .store, .publish, .v, .again 1 true, .read, .input 105,
    .accept 105, .advance, .store, .publish, .ret 104, .v]

theorem console_fifo_two : ∃ s : Console Nat,
    Run (fun s e s' => s.exec e = some s') (configCon fun _ => 0) twoChars s ∧
      ConsoleFifo twoChars s ∧ returned twoChars = [104] ∧ s.buffered = [105] ∧
      s.rsem.count = 1 := by
  exact Run.exists_imp (Q := fun s => s.buffered = [105] ∧ s.rsem.count = 1)
    (Run.exists_of_foldlM (fun _ _ _ => id) (by decide))
    fun s hr hp => ⟨console_fifo _ hr, by decide, hp⟩

end Runs

end OsPaging.Dev
