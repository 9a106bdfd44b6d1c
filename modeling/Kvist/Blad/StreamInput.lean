import Kvist.Utf8Prefix

/-!
# Input as a stream

The viewer takes its input read by read. Bytes of a character that is not complete are carried to the
next read, and no more bytes are taken than the limit allows.
-/

set_option autoImplicit false

namespace Kvist.Blad.StreamInput

open Json (utf8)
open Utf8 (Utf8Error readUtf8)

def sourceLimit : Nat := 16 * 1024 * 1024

def readSize : Nat := 64 * 1024

def pumpReads : Nat := 4

inductive Error where
  | fileTooLarge (message : String)
  | invalidUtf8 (error : Utf8Error)
  | invalidData (message : String)
  | os (message : String)
  deriving DecidableEq

/-- A subtraction of machine numbers. There is no result below zero. -/
def checkedSub (left right : Nat) : Option Nat := if right ≤ left then some (left - right) else none

/-! ## The buffer -/

structure InputBuffer where
  source : List Char
  pending : List UInt8
  received : Nat
  limit : Nat

namespace InputBuffer

def new (limit : Nat) : InputBuffer := ⟨[], [], 0, limit⟩

def limitMessage (limit : Nat) : String := s!"file exceeds the {limit}-byte input limit"

/-- The bytes of the characters in front, and the error if there is no way to go on. -/
def split (pending : List UInt8) : Nat × Option Utf8Error :=
  match readUtf8 pending with
  | .ok text => ((utf8 text).length, none)
  | .error error => (error.validUpTo, error.errorLen.map fun _ => error)

def push (buffer : InputBuffer) (bytes : List UInt8) : Option (Except Error Unit × InputBuffer) := do
  let room ← checkedSub buffer.limit buffer.received
  if room < bytes.length then
    return (.error (.fileTooLarge (limitMessage buffer.limit)), buffer)
  else
    let pending := buffer.pending ++ bytes
    let received := buffer.received + bytes.length
    let (valid, invalid) := split pending
    match readUtf8 (pending.take valid) with
    | .error error => return (.error (.invalidUtf8 error), { buffer with received, pending })
    | .ok text =>
        let source := buffer.source ++ text
        match invalid with
        | some error => return (.error (.invalidUtf8 error), ⟨source, [], received, buffer.limit⟩)
        | none => return (.ok (), ⟨source, pending.drop valid, received, buffer.limit⟩)

def finish (buffer : InputBuffer) : Except Error Unit :=
  if buffer.pending = [] then .ok ()
  else .error (.invalidData "incomplete UTF-8 sequence at end of stdin")

/-- The reads one by one until one fails. -/
def pushAll (buffer : InputBuffer) : List (List UInt8) → Option (Except Error Unit × InputBuffer)
  | [] => some (.ok (), buffer)
  | bytes :: rest => do
      match ← buffer.push bytes with
      | (.ok (), buffer) => buffer.pushAll rest
      | (.error error, buffer) => return (.error error, buffer)

/-- All reads until one fails, and then the end of the input. -/
def readAll (limit : Nat) (reads : List (List UInt8)) :
    Option (Except Error Unit × Except Error Unit × InputBuffer) := do
  let (pushed, buffer) ← (new limit).pushAll reads
  return (pushed, buffer.finish, buffer)

end InputBuffer

/-! ## The pump -/

inductive State where
  | live
  | eof
  | stopped
  | failed (error : Error)
  deriving DecidableEq

structure StdinStream where
  buffer : InputBuffer
  state : State
  revision : Nat

def StdinStream.new (limit : Nat) : StdinStream := ⟨InputBuffer.new limit, .live, 0⟩

/-- What a descriptor that is ready gives: bytes up to as many as are asked for, none of them at the
end of the input. -/
inductive Reading where
  | available (bytes : List UInt8)
  | again
  | failed (error : Error)

inductive Polling where
  | notReady
  | interrupted
  | failed (error : Error)
  | invalid
  | ready (reading : Reading)

namespace StdinStream

def allowance (buffer : InputBuffer) : Option Nat := do
  let room ← checkedSub buffer.limit buffer.received
  return min (room + 1) readSize

/-- What a read of bytes changes, and whether another may follow. -/
def receive (stream : StdinStream) (bytes : List UInt8) : Option (Bool × StdinStream) := do
  if bytes = [] then
    match stream.buffer.finish with
    | .ok () => return (false, { stream with state := .eof })
    | .error error => return (false, { stream with state := .failed error })
  else
    let (result, buffer) ← stream.buffer.push bytes
    let revision :=
      if (utf8 buffer.source).length ≠ (utf8 stream.buffer.source).length then stream.revision + 1
      else stream.revision
    match result with
    | .ok () => return (true, ⟨buffer, stream.state, revision⟩)
    | .error error => return (false, ⟨buffer, .failed error, revision⟩)

def poll (stream : StdinStream) : Polling → Option (Bool × StdinStream)
  | .notReady => some (false, stream)
  | .interrupted => some (false, stream)
  | .failed error => some (false, { stream with state := .failed error })
  | .invalid => some (false, { stream with state := .failed (.os "EBADF") })
  | .ready reading => do
      let allowed ← allowance stream.buffer
      match reading with
      | .available bytes => stream.receive (bytes.take allowed)
      | .again => return (false, stream)
      | .failed error => return (false, { stream with state := .failed error })

/-- As many reads as are left. Where nothing more comes, nothing is ready. -/
def pumpLoop : Nat → StdinStream → List Polling → Option (Bool × StdinStream)
  | 0, stream, _ => some (true, stream)
  | _ + 1, stream, [] => some (false, stream)
  | reads + 1, stream, polling :: rest => do
      match ← stream.poll polling with
      | (true, stream) => pumpLoop reads stream rest
      | (false, stream) => return (false, stream)

def pumpFrom (stream : StdinStream) (pollings : List Polling) : Option (Bool × StdinStream) :=
  if stream.state = .live then pumpLoop pumpReads stream pollings else some (false, stream)

/-- The pump again and again. -/
def pumpAll (stream : StdinStream) : List (List Polling) → Option StdinStream
  | [] => some stream
  | pollings :: rest => do
      let (_, stream) ← stream.pumpFrom pollings
      stream.pumpAll rest

end StdinStream

end Kvist.Blad.StreamInput

/-! ## What a stream gives

However the bytes come in, the text is the longest one that they begin with, and nothing fails but
where the bytes are no UTF-8 or too many.
-/

namespace Kvist.Blad.StreamInput

open Json (utf8)
open Utf8 (Utf8Error readUtf8 Stuck stuck_nil stuck_cons_iff utf8_append)

variable {buffer after : InputBuffer} {total bytes left : List UInt8} {result : Except Error Unit}

/-- The text is one that the bytes begin with, and any other such text is a part of it. -/
def IsLongestText (text : List Char) (bytes : List UInt8) : Prop :=
  utf8 text <+: bytes ∧ ∀ other, utf8 other <+: bytes → other <+: text

theorem isLongestText_of_stuck {text : List Char} (stuck : Stuck left) :
    IsLongestText text (utf8 text ++ left) :=
  ⟨List.prefix_append _ _, fun _ begins => Utf8.prefix_of_stuck stuck begins⟩

theorem readUtf8_ok_iff {text : List Char} : readUtf8 bytes = .ok text ↔ utf8 text = bytes :=
  ⟨Utf8.readUtf8_ok, fun same => same ▸ Utf8.readUtf8_utf8 text⟩

/-! ## One read -/

/-- What is between two reads: the text with the bytes that are carried is what has come in. -/
structure Carries (total : List UInt8) (buffer : InputBuffer) : Prop where
  parts : utf8 buffer.source ++ buffer.pending = total
  stuck : Stuck buffer.pending
  short : buffer.pending.length ≤ 3
  received : buffer.received = total.length
  within : buffer.received ≤ buffer.limit

theorem carries_new (limit : Nat) : Carries [] (InputBuffer.new limit) :=
  ⟨rfl, stuck_nil, Nat.zero_le 3, rfl, Nat.zero_le limit⟩

theorem checkedSub_of_le {small large : Nat} (le : small ≤ large) :
    checkedSub large small = some (large - small) := if_pos le

/-- The bytes in front of an error are a text, and no character is behind it, whatever follows. -/
theorem split_cases (pending : List UInt8) :
    ∃ text left, pending = utf8 text ++ left ∧
      ((InputBuffer.split pending = ((utf8 text).length, none) ∧ Stuck left ∧ left.length ≤ 3) ∨
        ∃ error, InputBuffer.split pending = ((utf8 text).length, some error) ∧ left ≠ [] ∧
          ∀ more, Stuck (left ++ more)) := by
  rw [InputBuffer.split]
  cases read : readUtf8 pending with
  | ok text =>
      refine ⟨text, [], ?_, .inl ⟨rfl, stuck_nil, Nat.zero_le 3⟩⟩
      rw [List.append_nil, readUtf8_ok_iff.mp read]
  | error error =>
      obtain ⟨text, first, rest, parts, stuck, rfl⟩ := Utf8.readUtf8_error read
      refine ⟨text, first :: rest, parts, ?_⟩
      cases early : Utf8.errorLen first rest with
      | none =>
          exact .inl ⟨rfl, stuck_cons_iff.mpr stuck, Utf8.length_of_errorLen_none stuck early⟩
      | some place =>
          exact .inr ⟨_, rfl, List.cons_ne_nil _ _, Utf8.stuck_of_errorLen stuck early⟩

/-- A read is taken whole, or it is too long, or the bytes are no UTF-8 whatever follows. -/
inductive Pushed (total bytes : List UInt8) (buffer : InputBuffer) :
    Except Error Unit → InputBuffer → Prop where
  | taken {after : InputBuffer} (limit : after.limit = buffer.limit)
      (carries : Carries (total ++ bytes) after) : Pushed total bytes buffer (.ok ()) after
  | tooLong {error : Error} (long : buffer.limit < (total ++ bytes).length) :
      Pushed total bytes buffer (.error error) buffer
  | broken {error : Error} {after : InputBuffer} {left : List UInt8}
      (parts : utf8 after.source ++ left = total ++ bytes) (nonempty : left ≠ [])
      (stuck : ∀ more, Stuck (left ++ more)) (cleared : after.pending = [])
      (within : after.received ≤ after.limit) : Pushed total bytes buffer (.error error) after

theorem push_spec (carries : Carries total buffer) (bytes : List UInt8) :
    ∃ result after, buffer.push bytes = some (result, after) ∧
      Pushed total bytes buffer result after := by
  obtain ⟨parts, _, _, received, within⟩ := carries
  have length : (total ++ bytes).length = buffer.received + bytes.length := by
    rw [List.length_append, received]
  rw [InputBuffer.push, checkedSub_of_le within, Option.bind_eq_bind, Option.bind_some]
  by_cases long : buffer.limit - buffer.received < bytes.length
  · rw [if_pos long]
    exact ⟨_, _, rfl, .tooLong (by omega)⟩
  · rw [if_neg long]
    obtain ⟨text, left, whole, found⟩ := split_cases (buffer.pending ++ bytes)
    have joined : utf8 (buffer.source ++ text) ++ left = total ++ bytes := by
      rw [utf8_append, List.append_assoc, ← whole, ← List.append_assoc, parts]
    have front : (buffer.pending ++ bytes).take (utf8 text).length = utf8 text := by
      rw [whole, List.take_left]
    have back : (buffer.pending ++ bytes).drop (utf8 text).length = left := by
      rw [whole, List.drop_left]
    obtain ⟨same, stuck, short⟩ | ⟨error, same, nonempty, stuck⟩ := found
    · simp only [same, front, Utf8.readUtf8_utf8, back]
      refine ⟨_, _, rfl, .taken rfl ⟨joined, stuck, short, length.symm, ?_⟩⟩
      dsimp only
      omega
    · simp only [same, front, Utf8.readUtf8_utf8]
      refine ⟨_, _, rfl, .broken joined nonempty stuck rfl ?_⟩
      dsimp only
      omega

theorem Pushed.pending_le (pushed : Pushed total bytes buffer result after)
    (carries : Carries total buffer) : after.pending.length ≤ 3 := by
  cases pushed with
  | taken _ carries => exact carries.short
  | tooLong _ => exact carries.short
  | broken _ _ _ cleared _ => rw [cleared]; exact Nat.zero_le 3

theorem Pushed.received_le (pushed : Pushed total bytes buffer result after)
    (carries : Carries total buffer) : after.received ≤ after.limit := by
  cases pushed with
  | taken _ carries => exact carries.within
  | tooLong _ => exact carries.within
  | broken _ _ _ _ within => exact within

theorem finish_ok_iff : buffer.finish = .ok () ↔ buffer.pending = [] := by
  rw [InputBuffer.finish]
  split
  · rename_i none
    exact iff_of_true rfl none
  · rename_i some
    exact iff_of_false nofun some

/-! ## All reads -/

variable {reads : List (List UInt8)}

theorem pushAll_spec (carries : Carries total buffer) (reads : List (List UInt8)) :
    ∃ result after, buffer.pushAll reads = some (result, after) ∧ after.pending.length ≤ 3 ∧
      ((result = .ok () ∧ after.limit = buffer.limit ∧ Carries (total ++ reads.flatten) after) ∨
        (∃ error, result = .error error) ∧
          (buffer.limit < (total ++ reads.flatten).length ∨
            ∃ left, utf8 after.source ++ left = total ++ reads.flatten ∧ left ≠ [] ∧
              Stuck left)) := by
  induction reads generalizing total buffer with
  | nil =>
      refine ⟨_, _, rfl, carries.short, .inl ⟨rfl, rfl, ?_⟩⟩
      rw [List.flatten_nil, List.append_nil]
      exact carries
  | cons bytes rest ih =>
      obtain ⟨result, after, pushedEq, pushed⟩ := push_spec carries bytes
      have short := pushed.pending_le carries
      rw [InputBuffer.pushAll, pushedEq, Option.bind_eq_bind, Option.bind_some, List.flatten_cons,
        ← List.append_assoc]
      cases pushed with
      | taken limit carried =>
          obtain ⟨result, last, lastEq, lastShort, outcome⟩ := ih carried
          rw [limit] at outcome
          exact ⟨result, last, lastEq, lastShort, outcome⟩
      | tooLong long =>
          refine ⟨_, _, rfl, short, .inr ⟨⟨_, rfl⟩, .inl ?_⟩⟩
          rw [List.length_append]
          omega
      | @broken _ _ left parts nonempty stuck _ _ =>
          refine ⟨_, _, rfl, short, .inr ⟨⟨_, rfl⟩, .inr ⟨left ++ rest.flatten, ?_, ?_, stuck _⟩⟩⟩
          · rw [← List.append_assoc, parts]
          · exact List.append_ne_nil_of_left_ne_nil nonempty _

/-! ## The pump -/

/-- As long as the stream is live its buffer is between two reads. -/
structure Sound (stream : StdinStream) : Prop where
  within : stream.buffer.received ≤ stream.buffer.limit
  carries : stream.state = .live → ∃ total, Carries total stream.buffer

theorem sound_new (limit : Nat) : Sound (StdinStream.new limit) :=
  ⟨Nat.zero_le limit, fun _ => ⟨[], carries_new limit⟩⟩

theorem sound_ended {stream : StdinStream} (within : stream.buffer.received ≤ stream.buffer.limit)
    (ended : stream.state ≠ .live) : Sound stream := ⟨within, fun live => absurd live ended⟩

variable {stream : StdinStream}

theorem allowance_spec (within : buffer.received ≤ buffer.limit) :
    ∃ allowed, StdinStream.allowance buffer = some allowed ∧ 0 < allowed ∧ allowed ≤ readSize := by
  rw [StdinStream.allowance, checkedSub_of_le within]
  exact ⟨_, rfl, Nat.lt_min.mpr ⟨Nat.succ_pos _, by decide⟩, Nat.min_le_right _ _⟩

theorem receive_spec (sound : Sound stream) (live : stream.state = .live) (bytes : List UInt8) :
    ∃ more next, stream.receive bytes = some (more, next) ∧ Sound next ∧
      (more = true → next.state = .live) := by
  obtain ⟨total, carries⟩ := sound.carries live
  rw [StdinStream.receive]
  split
  · cases stream.buffer.finish with
    | ok _ => exact ⟨_, _, rfl, sound_ended sound.within nofun, nofun⟩
    | error error => exact ⟨_, _, rfl, sound_ended sound.within nofun, nofun⟩
  · obtain ⟨result, after, pushedEq, pushed⟩ := push_spec carries bytes
    have within := pushed.received_le carries
    rw [pushedEq, Option.bind_eq_bind, Option.bind_some]
    cases pushed with
    | taken _ carried => exact ⟨_, _, rfl, ⟨within, fun _ => ⟨_, carried⟩⟩, fun _ => live⟩
    | tooLong _ => exact ⟨_, _, rfl, sound_ended within nofun, nofun⟩
    | broken _ _ _ _ _ => exact ⟨_, _, rfl, sound_ended within nofun, nofun⟩

theorem poll_spec (sound : Sound stream) (live : stream.state = .live) (polling : Polling) :
    ∃ more next, stream.poll polling = some (more, next) ∧ Sound next ∧
      (more = true → next.state = .live) := by
  cases polling with
  | notReady => exact ⟨_, _, rfl, sound, nofun⟩
  | interrupted => exact ⟨_, _, rfl, sound, nofun⟩
  | failed error => exact ⟨_, _, rfl, sound_ended sound.within nofun, nofun⟩
  | invalid => exact ⟨_, _, rfl, sound_ended sound.within nofun, nofun⟩
  | ready reading =>
      obtain ⟨allowed, allowedEq, _⟩ := allowance_spec sound.within
      rw [StdinStream.poll, allowedEq, Option.bind_eq_bind, Option.bind_some]
      cases reading with
      | available bytes => exact receive_spec sound live _
      | again => exact ⟨_, _, rfl, sound, nofun⟩
      | failed error => exact ⟨_, _, rfl, sound_ended sound.within nofun, nofun⟩

theorem pumpLoop_spec (sound : Sound stream) (live : stream.state = .live) (reads : Nat)
    (pollings : List Polling) :
    ∃ full next, StdinStream.pumpLoop reads stream pollings = some (full, next) ∧ Sound next := by
  induction reads generalizing stream pollings with
  | zero => exact ⟨_, _, rfl, sound⟩
  | succ reads ih =>
      cases pollings with
      | nil => exact ⟨_, _, rfl, sound⟩
      | cons polling rest =>
          obtain ⟨more, next, polled, sound, stays⟩ := poll_spec sound live polling
          rw [StdinStream.pumpLoop, polled, Option.bind_eq_bind, Option.bind_some]
          cases more with
          | true => exact ih sound (stays rfl) rest
          | false => exact ⟨_, _, rfl, sound⟩

theorem pumpFrom_spec (sound : Sound stream) (pollings : List Polling) :
    ∃ full next, stream.pumpFrom pollings = some (full, next) ∧ Sound next := by
  rw [StdinStream.pumpFrom]
  split
  · rename_i live
    exact pumpLoop_spec sound live _ _
  · exact ⟨_, _, rfl, sound⟩

theorem pumpAll_spec (sound : Sound stream) (pumps : List (List Polling)) :
    ∃ next, stream.pumpAll pumps = some next ∧ Sound next := by
  induction pumps generalizing stream with
  | nil => exact ⟨_, rfl, sound⟩
  | cons pollings rest ih =>
      obtain ⟨full, next, pumped, sound⟩ := pumpFrom_spec sound pollings
      rw [StdinStream.pumpAll, pumped, Option.bind_eq_bind, Option.bind_some]
      exact ih sound

/-! ## Streams and single texts -/

/-- The reads give what all of the bytes give at once, and no number goes below zero. -/
theorem streamed_input (limit : Nat) (reads : List (List UInt8)) :
    (∃ pushed finished buffer, InputBuffer.readAll limit reads = some (pushed, finished, buffer) ∧
      (reads.flatten.length ≤ limit → IsLongestText buffer.source reads.flatten ∧
        (pushed = .ok () ∧ finished = .ok () ↔
          readUtf8 reads.flatten = .ok buffer.source) ∧
        (pushed = .ok () ∧ finished = .ok () ↔ ∃ text, utf8 text = reads.flatten)) ∧
      (limit < reads.flatten.length → pushed ≠ .ok ())) ∧
    (∀ front, front <+: reads → ∃ pushed buffer,
      (InputBuffer.new limit).pushAll front = some (pushed, buffer) ∧
        buffer.pending.length ≤ 3) ∧
    ∀ pumps, ∃ stream, (StdinStream.new limit).pumpAll pumps = some stream ∧
      ∃ allowed, StdinStream.allowance stream.buffer = some allowed ∧ 0 < allowed ∧
        allowed ≤ readSize := by
  refine ⟨?_, fun front _ => ?_, fun pumps => ?_⟩
  · obtain ⟨result, after, pushedEq, _, outcome⟩ := pushAll_spec (carries_new limit) reads
    rw [List.nil_append] at outcome
    refine ⟨result, after.finish, after, ?_, fun small => ?_, fun large => ?_⟩
    · rw [InputBuffer.readAll, pushedEq]
      rfl
    · obtain ⟨rfl, _, carries⟩ | ⟨⟨error, rfl⟩, long | ⟨left, parts, nonempty, stuck⟩⟩ := outcome
      · rw [← carries.parts]
        refine ⟨isLongestText_of_stuck carries.stuck, ?_, ?_⟩
        · rw [finish_ok_iff, and_iff_right rfl, readUtf8_ok_iff, List.self_eq_append_right]
        · rw [finish_ok_iff, and_iff_right rfl, Utf8.valid_iff_of_stuck carries.stuck]
      · exact absurd small (Nat.not_le_of_lt long)
      · rw [← parts]
        refine ⟨isLongestText_of_stuck stuck, ?_, ?_⟩
        · rw [readUtf8_ok_iff, List.self_eq_append_right]
          exact iff_of_false (fun both => nomatch both.1) nonempty
        · rw [Utf8.valid_iff_of_stuck stuck]
          exact iff_of_false (fun both => nomatch both.1) nonempty
    · obtain ⟨rfl, same, carries⟩ | ⟨⟨error, rfl⟩, _⟩ := outcome
      · have within := carries.within
        have length := carries.received
        have bound : after.limit = limit := same
        omega
      · exact nofun
  · obtain ⟨result, after, pushedEq, short, _⟩ := pushAll_spec (carries_new limit) front
    exact ⟨result, after, pushedEq, short⟩
  · obtain ⟨stream, pumped, sound⟩ := pumpAll_spec (sound_new limit) pumps
    exact ⟨stream, pumped, allowance_spec sound.within⟩

end Kvist.Blad.StreamInput
