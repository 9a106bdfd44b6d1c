import Kvist.LoopDetection.Generation

/-!
# Where the deltas of a stream begin and end

A channel is inspected character by character, so that only the whole text counts. An inspection
that the host stops is not undone: the detector is latched and reports nothing any more.
-/

set_option autoImplicit false

namespace Kvist.LoopDetection

open Model

namespace ChannelDetector

variable {primitives : Primitives} {detector : ChannelDetector}

/-! ## What a character leaves alone -/

@[simp] theorem flushTicks_detected : detector.flushTicks.detected = detector.detected := by
  simp only [flushTicks]
  repeat' split
  all_goals rfl

@[simp] theorem markFence_detected : detector.markFence.detected = detector.detected := by
  simp only [markFence]
  repeat' split
  all_goals rfl

@[simp] theorem finishFirstWord_detected :
    detector.finishFirstWord.detected = detector.detected := by
  rw [finishFirstWord]
  split
  · exact markFence_detected
  · rfl

@[simp] theorem extendMarker_detected (character : Char) :
    (detector.extendMarker character).detected = detector.detected := by
  rw [extendMarker]
  split <;> rfl

@[simp] theorem markQuote_detected (character : Char) :
    (detector.markQuote character).detected = detector.detected := by
  simp only [markQuote]
  repeat' split
  all_goals rfl

@[simp] theorem finishWord_detected :
    (detector.finishWord primitives).1.detected = detector.detected := by
  rw [finishWord]
  split
  · rfl
  · dsimp only
    split
    · exact flushTicks_detected
    · exact finishFirstWord_detected.trans flushTicks_detected

@[simp] theorem feedWhitespace_detected (character : Char) :
    (detector.feedWhitespace primitives character).1.detected = detector.detected := by
  have kept := @finishWord_detected primitives detector
  rw [feedWhitespace]
  split
  · rename_i same
    rw [same] at kept
    exact kept
  · rename_i same
    rw [same] at kept
    repeat' split
    all_goals exact kept

@[simp] theorem feedWordChar_detected (character : Char) :
    (detector.feedWordChar primitives character).1.detected = detector.detected := by
  simp only [feedWordChar]
  repeat' split
  all_goals simp

@[simp] theorem feedChar_detected (character : Char) :
    (detector.feedChar primitives character).1.detected = detector.detected := by
  simp only [feedChar]
  repeat' split
  all_goals simp

/-! ## An inspection that goes on -/

-- The equations of `scan` do not depend on what one character does.
attribute [local irreducible] feedChar

/-- The characters up to the first pattern. -/
def scan (primitives : Primitives) :
    ChannelDetector → List Char → ChannelDetector × Option Pattern
  | detector, [] => (detector, none)
  | detector, character :: rest =>
      let fed := detector.feedChar primitives character
      match fed.2 with
      | some pattern => ({ fed.1 with detected := some pattern }, some pattern)
      | none => scan primitives fed.1 rest

/-- A text, unless a pattern was found before. -/
def feed (primitives : Primitives) (detector : ChannelDetector) (text : List Char) :
    ChannelDetector × Option Pattern :=
  match detector.detected with
  | some pattern => (detector, some pattern)
  | none => scan primitives detector text

theorem feed_found {pattern : Pattern} (found : detector.detected = some pattern)
    (text : List Char) : feed primitives detector text = (detector, some pattern) := by
  rw [feed, found]

theorem feed_nil : feed primitives detector [] = (detector, detector.detected) := by
  rw [feed]
  cases detector.detected <;> rfl

theorem feed_fresh (fresh : detector.detected = none) (text : List Char) :
    feed primitives detector text = scan primitives detector text := by
  rw [feed, fresh]

/-- What is found is kept. -/
theorem scan_detected (text : List Char) (fresh : detector.detected = none) :
    (scan primitives detector text).1.detected = (scan primitives detector text).2 := by
  induction text generalizing detector with
  | nil => exact fresh
  | cons character rest ih =>
      have kept := @feedChar_detected primitives detector character
      rw [scan]
      generalize detector.feedChar primitives character = fed at kept
      obtain ⟨next, pattern⟩ := fed
      cases pattern with
      | some pattern => rfl
      | none => exact ih (kept.trans fresh)

theorem feed_detected (text : List Char) :
    (feed primitives detector text).1.detected = (feed primitives detector text).2 := by
  cases before : detector.detected with
  | some pattern =>
      rw [feed_found before]
      exact before
  | none =>
      rw [feed_fresh before]
      exact scan_detected text before

theorem scan_append (front back : List Char) (fresh : detector.detected = none) :
    scan primitives detector (front ++ back) =
      feed primitives (scan primitives detector front).1 back := by
  induction front generalizing detector with
  | nil => exact (feed_fresh fresh back).symm
  | cons character rest ih =>
      have kept := @feedChar_detected primitives detector character
      rw [List.cons_append, scan, scan]
      generalize detector.feedChar primitives character = fed at kept
      obtain ⟨next, pattern⟩ := fed
      cases pattern with
      | some pattern => exact (feed_found rfl back).symm
      | none => exact ih (kept.trans fresh)

/-- Two texts, one after the other, are inspected as one. -/
theorem feed_append (front back : List Char) :
    feed primitives detector (front ++ back) =
      feed primitives (feed primitives detector front).1 back := by
  cases before : detector.detected with
  | some pattern => rw [feed_found before, feed_found before, feed_found before]
  | none =>
      rw [feed_fresh before, feed_fresh before]
      exact scan_append front back before

end ChannelDetector

namespace Control

/-- The host lets every further inspection go on. -/
def Open (control : Control) : Prop := ∀ poll, control.answers poll = true

theorem always_open : always.Open := fun _ => rfl

theorem Open.next {control : Control} (opened : control.Open) : control.next.Open := opened

theorem Open.keepGoing {control : Control} (opened : control.Open) : control.keepGoing = true :=
  opened control.asked

end Control

namespace ChannelDetector

variable {primitives : Primitives} {detector : ChannelDetector}

theorem feedLoop_open (text : List Char) {control : Control} (opened : control.Open) (index : Nat) :
    ∃ after : Control, after.Open ∧ feedLoop primitives index detector control text =
      ⟨(scan primitives detector text).1, (scan primitives detector text).2, after, false⟩ := by
  induction text generalizing detector control index with
  | nil => exact ⟨control, opened, rfl⟩
  | cons character rest ih =>
      have still : (if index % 256 == 0 then control.next else control).Open := by
        split
        · exact opened.next
        · exact opened
      rewrite [feedLoop, scan]
      simp only [opened.keepGoing, Bool.not_true, Bool.and_false]
      generalize detector.feedChar primitives character = fed
      obtain ⟨next, pattern⟩ := fed
      cases pattern with
      | some pattern => exact ⟨_, still, rfl⟩
      | none => exact ih still (index + 1)

theorem feedWhile_open (text : List Char) {control : Control} (opened : control.Open) :
    ∃ after : Control, after.Open ∧ detector.feedWhile primitives text control =
      ⟨(feed primitives detector text).1, (feed primitives detector text).2, after, false⟩ := by
  cases before : detector.detected with
  | some pattern =>
      refine ⟨control, opened, ?_⟩
      rw [feedWhile, before, feed_found before]
  | none =>
      rw [feedWhile, before, feed_fresh before]
      exact feedLoop_open text opened 0

end ChannelDetector

/-! ## The deltas of a stream -/

def RepetitionChannel.delta : RepetitionChannel → String → ModelStreamEvent
  | .answer, fragment => .textDelta fragment
  | .reasoning, fragment => .reasoningDelta fragment

/-- The fragments of a channel, one after the other. -/
def channelText (channel : RepetitionChannel) : List ModelStreamEvent → String
  | [] => ""
  | event :: rest =>
      match channel, event with
      | .answer, .textDelta fragment => fragment ++ channelText .answer rest
      | .reasoning, .reasoningDelta fragment => fragment ++ channelText .reasoning rest
      | channel, _ => channelText channel rest

@[simp] theorem toList_channelText_nil (channel : RepetitionChannel) :
    (channelText channel []).toList = [] := by
  cases channel <;> rfl

theorem toList_channelText (channel : RepetitionChannel) (events : List ModelStreamEvent) :
    (channelText channel events).toList = events.flatMap fun event =>
      match channel, event with
      | .answer, .textDelta fragment => fragment.toList
      | .reasoning, .reasoningDelta fragment => fragment.toList
      | _, _ => [] := by
  induction events with
  | nil => exact toList_channelText_nil channel
  | cons event rest ih =>
      cases channel <;> cases event <;>
        simp only [channelText, String.toList_append, List.flatMap_cons, List.nil_append, ih]

theorem channelText_delta (channel : RepetitionChannel) (fragment : String)
    (rest : List ModelStreamEvent) :
    channelText channel (channel.delta fragment :: rest) = fragment ++ channelText channel rest := by
  cases channel <;> rfl

theorem channelText_other {channel other : RepetitionChannel} (different : channel ≠ other)
    (fragment : String) (rest : List ModelStreamEvent) :
    channelText channel (other.delta fragment :: rest) = channelText channel rest := by
  cases channel <;> cases other <;> first | rfl | exact absurd rfl different

theorem channelText_toolIntent (channel : RepetitionChannel) (intent : Runtime.ToolIntent)
    (rest : List ModelStreamEvent) :
    channelText channel (.toolIntent intent :: rest) = channelText channel rest := by
  cases channel <;> rfl

theorem event_cases (event : ModelStreamEvent) :
    (∃ channel fragment, event = RepetitionChannel.delta channel fragment) ∨
      ∃ intent, event = .toolIntent intent := by
  cases event with
  | textDelta fragment => exact .inl ⟨.answer, fragment, rfl⟩
  | reasoningDelta fragment => exact .inl ⟨.reasoning, fragment, rfl⟩
  | toolIntent intent => exact .inr ⟨intent, rfl⟩

namespace StreamLoopDetector

/-- The detector behind all events, and the reports on the way. -/
def observeAll (primitives : Primitives) :
    StreamLoopDetector → List ModelStreamEvent → StreamLoopDetector × List RepetitionReport
  | detector, [] => (detector, [])
  | detector, event :: rest =>
      let observed := detector.observe primitives event
      let others := observeAll primitives observed.1 rest
      (others.1, observed.2.toList ++ others.2)

variable {primitives : Primitives} {detector : StreamLoopDetector}

@[simp] theorem channel_setChannel (replaced : ChannelDetector) (channel : RepetitionChannel) :
    (detector.setChannel replaced channel).channel channel = replaced := by
  cases channel <;> rfl

theorem channel_setChannel_other (replaced : ChannelDetector) {channel other : RepetitionChannel}
    (different : channel ≠ other) :
    (detector.setChannel replaced other).channel channel = detector.channel channel := by
  cases channel <;> cases other <;> first | rfl | exact absurd rfl different

@[simp] theorem interrupted_setChannel (replaced : ChannelDetector) (channel : RepetitionChannel) :
    (detector.setChannel replaced channel).interrupted = detector.interrupted := by
  cases channel <;> rfl

theorem observe_delta (quiet : detector.interrupted = false) (channel : RepetitionChannel)
    (fragment : String) :
    detector.observe primitives (channel.delta fragment) =
      (detector.setChannel
          ((detector.channel channel).feed primitives fragment.toList).1 channel,
        ((detector.channel channel).feed primitives fragment.toList).2.map (·.report channel)) := by
  obtain ⟨after, -, fed⟩ := @ChannelDetector.feedWhile_open primitives
    (detector.channel channel) fragment.toList _ Control.always_open.next
  have still : (detector.setChannel
      ((detector.channel channel).feed primitives fragment.toList).1 channel).interrupted = false := by
    rw [interrupted_setChannel, quiet]
  have observed : detector.observe primitives (channel.delta fragment) =
      ((detector.observeDelta primitives channel fragment Control.always.next).detector,
        (detector.observeDelta primitives channel fragment Control.always.next).report) := by
    cases channel <;> simp [observe, observeWhile, quiet, RepetitionChannel.delta,
      Control.always_open.keepGoing]
  rw [observed, observeDelta, fed]
  simp only [still, Bool.or_false]
  rw [← still]

theorem observe_toolIntent (quiet : detector.interrupted = false) (intent : Runtime.ToolIntent) :
    detector.observe primitives (.toolIntent intent) = (detector, none) := by
  simp [observe, observeWhile, quiet, Control.always_open.keepGoing]

/-- A channel is left as if its whole text had been one delta. -/
theorem observeAll_channel (quiet : detector.interrupted = false) (events : List ModelStreamEvent) :
    (observeAll primitives detector events).1.interrupted = false ∧
      ∀ channel, (observeAll primitives detector events).1.channel channel =
        ((detector.channel channel).feed primitives (channelText channel events).toList).1 := by
  induction events generalizing detector with
  | nil =>
      refine ⟨quiet, fun channel => ?_⟩
      rw [toList_channelText_nil, ChannelDetector.feed_nil]
      rfl
  | cons event rest ih =>
      rcases event_cases event with ⟨source, fragment, rfl⟩ | ⟨intent, rfl⟩
      · have still : (detector.setChannel
            ((detector.channel source).feed primitives fragment.toList).1 source).interrupted =
              false := by
          rw [interrupted_setChannel, quiet]
        obtain ⟨last, channels⟩ := ih still
        rw [observeAll, observe_delta quiet]
        refine ⟨last, fun channel => ?_⟩
        by_cases same : channel = source
        · rw [same, channelText_delta, String.toList_append, ChannelDetector.feed_append]
          rw [channels source, channel_setChannel]
        · rw [channelText_other same, channels channel, channel_setChannel_other _ same]
      · obtain ⟨last, channels⟩ := ih quiet
        rw [observeAll, observe_toolIntent quiet]
        refine ⟨last, fun channel => ?_⟩
        rw [channelText_toolIntent, channels channel]

/-- The first report about a channel is the one about its whole text. -/
theorem observeAll_report (quiet : detector.interrupted = false) {channel : RepetitionChannel}
    (fresh : (detector.channel channel).detected = none) (events : List ModelStreamEvent) :
    (observeAll primitives detector events).2.find? (·.channel == channel) =
      ((detector.channel channel).feed primitives
        (channelText channel events).toList).2.map (·.report channel) := by
  induction events generalizing detector with
  | nil =>
      rw [toList_channelText_nil, ChannelDetector.feed_nil, fresh]
      rfl
  | cons event rest ih =>
      rcases event_cases event with ⟨source, fragment, rfl⟩ | ⟨intent, rfl⟩
      · have still : (detector.setChannel
            ((detector.channel source).feed primitives fragment.toList).1 source).interrupted =
              false := by
          rw [interrupted_setChannel, quiet]
        rw [observeAll, observe_delta quiet]
        by_cases same : channel = source
        · obtain rfl := same
          have kept := @ChannelDetector.feed_detected primitives (detector.channel channel)
            fragment.toList
          rw [channelText_delta, String.toList_append, ChannelDetector.feed_append]
          cases found : ((detector.channel channel).feed primitives fragment.toList).2 with
          | some pattern =>
              rw [ChannelDetector.feed_found (kept.trans found)]
              simp [Pattern.report]
          | none =>
              rw [found] at kept
              have others := ih still (by rw [channel_setChannel]; exact kept)
              rw [channel_setChannel] at others
              exact others
        · have others := ih still (by rw [channel_setChannel_other _ same]; exact fresh)
          rw [channel_setChannel_other _ same] at others
          rw [channelText_other same, ← others]
          cases ((detector.channel source).feed primitives fragment.toList).2 with
          | none => rfl
          | some pattern => simp [Pattern.report, Ne.symm same]
      · rw [observeAll, observe_toolIntent quiet, channelText_toolIntent]
        exact ih quiet fresh

/-! ## The end of a turn -/

/-- What is found in a complete text by itself. -/
def unary (primitives : Primitives) (length : Bool) (text : List Char) : Option Pattern :=
  ((ChannelDetector.feed primitives {} text).1.finish primitives length).2

theorem finish_fresh (length : Bool) :
    (({} : ChannelDetector).finish primitives length).2 = none := by
  cases length <;> rfl

theorem finishChannels_cons {control : Control} (opened : control.Open) (length : Bool)
    (channel : RepetitionChannel) (text : List Char)
    (rest : List (RepetitionChannel × List Char)) :
    ∃ after : Control, after.Open ∧
      (detector.finishChannels primitives length control ((channel, text) :: rest)).report =
        (((detector.channel channel).finish primitives length).2 <|>
          unary primitives length text).elim
            ((detector.setChannel ((detector.channel channel).finish primitives length).1
              channel).finishChannels primitives length after rest).report
            fun pattern => some (pattern.report channel) := by
  obtain ⟨after, still, fed⟩ := @ChannelDetector.feedWhile_open primitives {} text _ opened.next
  refine ⟨after.next, still.next, ?_⟩
  have kept := @ChannelDetector.feed_detected primitives {} text
  rw [finishChannels, fed]
  simp only [opened.keepGoing, closes, still.keepGoing]
  cases finished : ((detector.channel channel).finish primitives length).2 with
  | some pattern => rfl
  | none =>
      cases found : (ChannelDetector.feed primitives {} text).2 with
      | some pattern =>
          have whole : unary primitives length text = some pattern := by
            rw [unary, ChannelDetector.finish, kept, found]
          rw [whole]
          rfl
      | none =>
          simp only [Bool.not_true, Bool.false_eq_true, if_false]
          cases unaryFound : unary primitives length text with
          | some pattern =>
              rw [unary] at unaryFound
              rw [unaryFound]
              rfl
          | none =>
              rw [unary] at unaryFound
              rw [unaryFound]
              rfl

/-- The end of the channels adds nothing to what is found in their texts. -/
theorem finishChannels_report (length : Bool) (texts : List (RepetitionChannel × List Char))
    (distinct : (texts.map (·.1)).Nodup) {control : Control} (opened : control.Open)
    (alike : ∀ entry ∈ texts, ((detector.channel entry.1).finish primitives length).2 = none ∨
      ((detector.channel entry.1).finish primitives length).2 = unary primitives length entry.2) :
    (detector.finishChannels primitives length control texts).report =
      texts.findSome? fun entry => (unary primitives length entry.2).map (·.report entry.1) := by
  induction texts generalizing detector control with
  | nil => rfl
  | cons entry rest ih =>
      obtain ⟨channel, text⟩ := entry
      rw [List.map_cons, List.nodup_cons] at distinct
      obtain ⟨after, still, report⟩ := finishChannels_cons opened length channel text rest
      have whole : (((detector.channel channel).finish primitives length).2 <|>
          unary primitives length text) = unary primitives length text := by
        rcases alike _ List.mem_cons_self with none | same
        · rw [none]
          rfl
        · rw [same]
          cases unary primitives length text <;> rfl
      rw [report, whole, List.findSome?_cons]
      cases unary primitives length text with
      | some pattern => rfl
      | none =>
          apply ih distinct.2 still
          intro other member
          have different : other.1 ≠ channel := by
            intro same
            apply distinct.1
            rw [← same]
            exact List.mem_map.mpr ⟨other, member, rfl⟩
          rw [channel_setChannel_other _ different]
          exact alike other (List.mem_cons_of_mem _ member)

theorem finish_report (quiet : detector.interrupted = false) (turn : ModelTurn)
    (alike : ∀ entry ∈ turnTexts turn,
      ((detector.channel entry.1).finish primitives (turn.finishReason == .length)).2 = none ∨
        ((detector.channel entry.1).finish primitives (turn.finishReason == .length)).2 =
          unary primitives (turn.finishReason == .length) entry.2) :
    (detector.finish primitives turn).2 = (turnTexts turn).findSome? fun entry =>
      (unary primitives (turn.finishReason == .length) entry.2).map (·.report entry.1) := by
  have distinct : ((turnTexts turn).map (·.1)).Nodup := by simp [turnTexts]
  rw [← finishChannels_report _ _ distinct Control.always_open alike]
  simp [finish, finishWhile, quiet]

/-- What is found at the end of a stream is what is found in the complete turn alone. -/
theorem observeAll_finish (events : List ModelStreamEvent) (turn : ModelTurn)
    (text : turn.text = channelText .answer events)
    (reasoning : turn.reasoning.getD "" = channelText .reasoning events) :
    ((observeAll primitives {} events).1.finish primitives turn).2 =
      (finish primitives {} turn).2 := by
  obtain ⟨quiet, channels⟩ := @observeAll_channel primitives {} rfl events
  rw [finish_report quiet, finish_report rfl]
  · intro entry _
    have fresh : StreamLoopDetector.channel {} entry.1 = {} := by cases entry.1 <;> rfl
    rw [fresh]
    exact .inl (finish_fresh _)
  · intro entry member
    rw [channels entry.1]
    right
    simp only [turnTexts, List.mem_cons, List.not_mem_nil, or_false] at member
    rcases member with rfl | rfl
    · rw [unary, text]
      rfl
    · rw [unary, reasoning]
      rfl

/-! ## Inspections that are stopped -/

/-- The answers that were given between two states of the host. -/
structure Polled (control : Control) (interrupted : Bool) (after : Control) : Prop where
  answers : after.answers = control.answers
  later : control.asked ≤ after.asked
  goesOn : interrupted = false →
    ∀ poll, control.asked ≤ poll → poll < after.asked → control.answers poll = true

theorem Polled.refl (control : Control) (interrupted : Bool) :
    Polled control interrupted control := by
  constructor
  · rfl
  · exact Nat.le_refl _
  · intro _ poll begun ended
    omega

theorem Polled.trans {first second third : Control} {one two : Bool}
    (front : Polled first one second) (back : Polled second two third) :
    Polled first (one || two) third := by
  constructor
  · exact back.answers.trans front.answers
  · exact Nat.le_trans front.later back.later
  · intro open_both poll begun ended
    rw [Bool.or_eq_false_iff] at open_both
    by_cases early : poll < second.asked
    · exact front.goesOn open_both.1 poll begun early
    · rw [← front.answers]
      exact back.goesOn open_both.2 poll (Nat.le_of_not_lt early) ended

theorem Polled.next (control : Control) :
    Polled control (!control.keepGoing) control.next := by
  constructor
  · rfl
  · exact Nat.le_succ _
  · intro opened poll begun ended
    have same : poll = control.asked := Nat.le_antisymm (Nat.le_of_lt_succ ended) begun
    rw [same]
    simpa [Control.keepGoing] using opened

theorem Polled.closes {first second : Control} {interrupted : Bool}
    (polled : Polled first interrupted second) :
    Polled first (closes interrupted second).1 (closes interrupted second).2 := by
  cases interrupted with
  | true => exact polled
  | false => exact polled.trans (.next second)

/-- Nothing is found where the inspection was stopped. -/
def FedPolled (control : Control) (fed : ChannelDetector.Fed) : Prop :=
  Polled control fed.interrupted fed.control ∧ (fed.interrupted = true → fed.pattern = none)

/-- Nothing is reported where the inspection was stopped. -/
def ReportPolled (control : Control) (observed : Observed) : Prop :=
  Polled control observed.detector.interrupted observed.control ∧
    (observed.detector.interrupted = true → observed.report = none)

theorem ReportPolled.quiet {control : Control} {observed : Observed}
    (quiet : observed.detector.interrupted = false) (polled : Polled control false observed.control) :
    ReportPolled control observed := by
  rw [ReportPolled, quiet]
  exact ⟨polled, fun stopped => by cases stopped⟩

theorem feedLoop_polled {detector : ChannelDetector} (text : List Char) (index : Nat)
    (control : Control) :
    FedPolled control (detector.feedLoop primitives index control text) := by
  induction text generalizing detector index control with
  | nil => exact ⟨.refl control false, fun _ => rfl⟩
  | cons character rest ih =>
      rw [ChannelDetector.feedLoop]
      have asked := Polled.next control
      cases asks : index % 256 == 0 with
      | false =>
          simp only [Bool.false_and, Bool.false_eq_true, if_false]
          generalize detector.feedChar primitives character = fed
          obtain ⟨next, pattern⟩ := fed
          cases pattern with
          | some pattern => exact ⟨.refl control false, fun stopped => by cases stopped⟩
          | none => exact ih (index + 1) control
      | true =>
          cases goes : control.keepGoing with
          | false =>
              rw [goes] at asked
              exact ⟨asked, fun _ => rfl⟩
          | true =>
              rw [goes] at asked
              simp only [Bool.not_true, Bool.and_false, Bool.false_eq_true, if_false, if_true]
              generalize detector.feedChar primitives character = fed
              obtain ⟨next, pattern⟩ := fed
              cases pattern with
              | some pattern => exact ⟨asked, fun stopped => by cases stopped⟩
              | none =>
                  obtain ⟨others, none⟩ := @ih next (index + 1) control.next
                  exact ⟨asked.trans others, none⟩

theorem feedWhile_polled {detector : ChannelDetector} (text : List Char) (control : Control) :
    FedPolled control (detector.feedWhile primitives text control) := by
  rw [ChannelDetector.feedWhile]
  cases detector.detected with
  | some pattern => exact ⟨.refl control false, fun stopped => by cases stopped⟩
  | none => exact feedLoop_polled text 0 control

theorem observeText_polled {detector : ChannelDetector} (text : List Char) (control : Control) :
    Polled control (observeText primitives detector text control).interrupted
      (observeText primitives detector text control).control := by
  have first := (@feedWhile_polled primitives detector text control).1
  simp only [observeText]
  generalize detector.feedWhile primitives text control = fed at first ⊢
  cases fed.pattern with
  | some pattern => exact first
  | none =>
      have line := (@feedWhile_polled primitives fed.detector ['\n'] fed.control).1
      dsimp only
      generalize fed.detector.feedWhile primitives ['\n'] fed.control = ended at line ⊢
      cases ended.pattern with
      | some pattern => exact first.trans line
      | none => exact first.trans line

/-- A report is given where the inspection was not stopped. -/
theorem observeChannels_polled (quiet : detector.interrupted = false) (control : Control)
    (texts : List (RepetitionChannel × List Char)) :
    ReportPolled control (detector.observeChannels primitives control texts) := by
  induction texts generalizing detector control with
  | nil =>
      refine ⟨?_, fun _ => rfl⟩
      exact .refl control _
  | cons entry rest ih =>
      obtain ⟨channel, text⟩ := entry
      have observed := @observeText_polled primitives (detector.channel channel) text control
      rw [observeChannels]
      generalize observeText primitives (detector.channel channel) text control = fed at observed ⊢
      have both := observed.closes
      have still : (detector.setChannel fed.detector channel).interrupted = false := by
        rw [interrupted_setChannel, quiet]
      generalize closes fed.interrupted fed.control = closed at both ⊢
      obtain ⟨stopped, after⟩ := closed
      cases stopped with
      | true => exact ⟨both, fun _ => rfl⟩
      | false =>
          dsimp only
          cases fed.pattern with
          | some pattern =>
              exact .quiet still both
          | none =>
              obtain ⟨others, none⟩ := ih still after
              exact ⟨both.trans others, none⟩

theorem finishChannels_polled (quiet : detector.interrupted = false) (length : Bool)
    (control : Control) (texts : List (RepetitionChannel × List Char)) :
    ReportPolled control (detector.finishChannels primitives length control texts) := by
  induction texts generalizing detector control with
  | nil =>
      refine ⟨?_, fun _ => rfl⟩
      exact .refl control _
  | cons entry rest ih =>
      obtain ⟨channel, text⟩ := entry
      have asked := Polled.next control
      rw [finishChannels]
      cases goes : control.keepGoing with
      | false =>
          rw [goes] at asked
          exact ⟨asked, fun _ => rfl⟩
      | true =>
          rw [goes] at asked
          simp only [Bool.not_true, Bool.false_eq_true, if_false]
          generalize (detector.channel channel).finish primitives length = finished
          have still : (detector.setChannel finished.1 channel).interrupted = false := by
            rw [interrupted_setChannel, quiet]
          cases finished.2 with
          | some pattern =>
              exact .quiet still asked
          | none =>
              have complete := (@feedWhile_polled primitives {} text control.next).1
              dsimp only
              generalize ChannelDetector.feedWhile primitives {} text control.next = fed
                at complete ⊢
              have all := asked.trans complete.closes
              generalize closes fed.interrupted fed.control = closed at all ⊢
              obtain ⟨stopped, after⟩ := closed
              cases stopped with
              | true => exact ⟨all, fun _ => rfl⟩
              | false =>
                  dsimp only
                  cases fed.pattern with
                  | some pattern =>
                      exact .quiet still all
                  | none =>
                      dsimp only
                      cases (fed.detector.finish primitives length).2 with
                      | some pattern =>
                          exact .quiet still all
                      | none =>
                          obtain ⟨others, none⟩ := ih still after
                          exact ⟨all.trans others, none⟩

/-- The host answered once that the inspection should not go on. -/
def Cancelled (control : Control) (observed : Observed) : Prop :=
  ∃ poll, control.asked ≤ poll ∧ poll < observed.control.asked ∧ control.answers poll = false

/-- An inspection that reports nothing, and leaves a detector that never does. -/
def Latched (observed : Observed) : Prop :=
  observed.report = none ∧ observed.detector.interrupted = true

theorem latched_of_polled {control : Control} {observed : Observed}
    (polled : Polled control observed.detector.interrupted observed.control)
    (none : observed.detector.interrupted = true → observed.report = none)
    (cancelled : Cancelled control observed) : Latched observed := by
  obtain ⟨poll, begun, ended, closed⟩ := cancelled
  have stopped : observed.detector.interrupted = true := by
    cases interrupted : observed.detector.interrupted with
    | true => rfl
    | false =>
        rw [polled.goesOn interrupted poll begun ended] at closed
        cases closed
  exact ⟨none stopped, stopped⟩

theorem observeDelta_polled (quiet : detector.interrupted = false) (channel : RepetitionChannel)
    (fragment : String) (control : Control) :
    ReportPolled control (detector.observeDelta primitives channel fragment control) := by
  obtain ⟨polled, none⟩ :=
    @feedWhile_polled primitives (detector.channel channel) fragment.toList control
  rw [observeDelta, ReportPolled]
  simp only [interrupted_setChannel, quiet, Bool.false_or]
  refine ⟨polled, fun stopped => ?_⟩
  rw [none stopped]
  rfl

theorem observeWhile_latched (event : ModelStreamEvent) (control : Control)
    (cancelled : Cancelled control (detector.observeWhile primitives event control)) :
    Latched (detector.observeWhile primitives event control) := by
  have asked := Polled.next control
  revert cancelled
  unfold observeWhile
  cases quiet : detector.interrupted with
  | true => exact fun _ => ⟨rfl, rfl⟩
  | false =>
      cases goes : control.keepGoing with
      | false => exact fun _ => ⟨rfl, rfl⟩
      | true =>
          rw [goes] at asked
          simp only [Bool.not_true, Bool.false_eq_true, if_false]
          cases event with
          | textDelta fragment =>
              have delta := @observeDelta_polled primitives _ quiet .answer fragment control.next
              exact latched_of_polled (asked.trans delta.1) delta.2
          | reasoningDelta fragment =>
              have delta :=
                @observeDelta_polled primitives _ quiet .reasoning fragment control.next
              exact latched_of_polled (asked.trans delta.1) delta.2
          | toolIntent intent =>
              apply latched_of_polled
              · rw [quiet]
                exact asked
              · exact fun _ => rfl

theorem observeTurnWhile_latched (turn : ModelTurn) (control : Control)
    (cancelled : Cancelled control (detector.observeTurnWhile primitives turn control)) :
    Latched (detector.observeTurnWhile primitives turn control) := by
  revert cancelled
  rw [observeTurnWhile]
  cases quiet : detector.interrupted with
  | true => exact fun _ => ⟨rfl, quiet⟩
  | false =>
      obtain ⟨polled, none⟩ :=
        @observeChannels_polled primitives detector quiet control (turnTexts turn)
      intro cancelled
      have latched : Latched (detector.observeChannels primitives control (turnTexts turn)) := by
        apply latched_of_polled polled none
        simp only [Bool.false_eq_true, if_false] at cancelled
        split at cancelled
        · exact cancelled
        · exact cancelled
      simp only [Bool.false_eq_true, if_false, latched.1, Option.isSome_none]
      exact latched

theorem finishWhile_latched (turn : ModelTurn) (control : Control)
    (cancelled : Cancelled control (detector.finishWhile primitives turn control)) :
    Latched (detector.finishWhile primitives turn control) := by
  revert cancelled
  rw [finishWhile]
  cases quiet : detector.interrupted with
  | true => exact fun _ => ⟨rfl, quiet⟩
  | false =>
      obtain ⟨polled, none⟩ := @finishChannels_polled primitives detector quiet
        (turn.finishReason == .length) control (turnTexts turn)
      exact latched_of_polled polled none

/-- A latched detector reports nothing, and stays as it is. -/
theorem interrupted_silent (stopped : detector.interrupted = true) (control : Control) :
    (∀ event, detector.observeWhile primitives event control = ⟨detector, none, control⟩) ∧
      ∀ turn, detector.observeTurnWhile primitives turn control = ⟨detector, none, control⟩ ∧
        detector.finishWhile primitives turn control = ⟨detector, none, control⟩ := by
  obtain ⟨answer, reasoning, interrupted⟩ := detector
  cases stopped
  refine ⟨fun event => ?_, fun turn => ⟨?_, ?_⟩⟩
  · simp [observeWhile]
  · simp [observeTurnWhile]
  · simp [finishWhile]

/-- Only the whole text of a channel counts, and an observation that is cancelled latches the
detector. -/
theorem delta_boundaries (primitives : Primitives) :
    (∀ (events : List ModelStreamEvent) (channel : RepetitionChannel),
      (observeAll primitives {} events).1.channel channel =
          (observe primitives {} (channel.delta (channelText channel events))).1.channel channel ∧
        (observeAll primitives {} events).2.find? (·.channel == channel) =
          (observe primitives {} (channel.delta (channelText channel events))).2) ∧
    (∀ (events : List ModelStreamEvent) (turn : ModelTurn),
      turn.text = channelText .answer events →
      turn.reasoning.getD "" = channelText .reasoning events →
      ((observeAll primitives {} events).1.finish primitives turn).2 =
        (finish primitives {} turn).2) ∧
    (∀ (detector : StreamLoopDetector) (control : Control),
      (∀ event, Cancelled control (detector.observeWhile primitives event control) →
        Latched (detector.observeWhile primitives event control)) ∧
      ∀ turn,
        (Cancelled control (detector.observeTurnWhile primitives turn control) →
          Latched (detector.observeTurnWhile primitives turn control)) ∧
        (Cancelled control (detector.finishWhile primitives turn control) →
          Latched (detector.finishWhile primitives turn control))) ∧
    ∀ (detector : StreamLoopDetector) (control : Control), detector.interrupted = true →
      (∀ event, detector.observeWhile primitives event control = ⟨detector, none, control⟩) ∧
      ∀ turn, detector.observeTurnWhile primitives turn control = ⟨detector, none, control⟩ ∧
        detector.finishWhile primitives turn control = ⟨detector, none, control⟩ := by
  refine ⟨?_, observeAll_finish, ?_, fun detector control stopped =>
    interrupted_silent stopped control⟩
  · intro events channel
    have fresh : StreamLoopDetector.channel {} channel = {} := by cases channel <;> rfl
    have detected : (StreamLoopDetector.channel {} channel).detected = none := by rw [fresh]
    rw [(@observeAll_channel primitives {} rfl events).2 channel,
      @observeAll_report primitives {} rfl channel detected events, observe_delta rfl]
    exact ⟨(channel_setChannel _ channel).symm, rfl⟩
  · intro detector control
    exact ⟨fun event => observeWhile_latched event control,
      fun turn => ⟨observeTurnWhile_latched turn control, finishWhile_latched turn control⟩⟩

/-- The characters of ASCII, and a hash that is not asked for. -/
def asciiPrimitives : Primitives where
  sha256 := fun _ => []
  isNumeric := Char.isDigit
  toLowercase := fun character => [character.toLower]

/-- The host stops the inspection when it is asked for the third time. -/
def stopsAtThird : Control := ⟨fun poll => poll != 2, 0⟩

def longWord : ModelStreamEvent := .textDelta (String.ofList (List.replicate 257 'a'))

/-- The hash of the one word that is said again and again. -/
def loopPrimitives : Primitives where
  sha256 := fun _ => [
    37, 70, 55, 247, 46, 252, 221, 182, 165, 69, 188, 203, 208, 195, 187, 132, 230, 57, 54,
    71, 222, 181, 253, 52, 77, 230, 88, 76, 204, 30, 116, 60]
  isNumeric := Char.isDigit
  toLowercase := fun character => [character.toLower]

/-- A word that is said 48 times, in fragments of two lengths. -/
def loopEvents : List ModelStreamEvent :=
  (List.replicate 24 [.textDelta "lo", .textDelta "op loop "]).flatten

def loopTurn : ModelTurn where
  text := channelText .answer loopEvents
  toolIntents := []
  finishReason := .stop
  reasoning := none
  provider := .llamaServer
  model := "fixture"
  responseId := none
  providerRequestId := none
  usage := none

/-- The word and a blank, 48 times. -/
def loopCharacters : List Char := (List.replicate 48 ['l', 'o', 'o', 'p', ' ']).flatten

theorem loopEvents_text : (channelText .answer loopEvents).toList = loopCharacters := by
  rw [toList_channelText]
  decide +kernel

theorem loopTurn_texts : turnTexts loopTurn = [(.answer, loopCharacters), (.reasoning, [])] := by
  change [(_, (channelText .answer loopEvents).toList), _] = _
  rw [loopEvents_text]
  rfl

theorem observeWhile_longWord (primitives : Primitives) :
    observeWhile primitives {} longWord stopsAtThird =
      let fed := ChannelDetector.feedWhile primitives {} (List.replicate 257 'a') stopsAtThird.next
      ⟨{ StreamLoopDetector.setChannel {} fed.detector .answer with interrupted := fed.interrupted },
        fed.pattern.map (·.report .answer), fed.control⟩ := by
  change observeDelta primitives {} .answer (String.ofList (List.replicate 257 'a')) _ = _
  rw [observeDelta, String.toList_ofList]
  rfl

theorem delta_boundaries_loop :
    (observeAll loopPrimitives {} loopEvents).2.find? (·.channel == .answer) =
        some ⟨.answer, .words, 1, 48, 100⟩ ∧
      ((observeAll loopPrimitives {} loopEvents).1.finish loopPrimitives loopTurn).2 =
        some ⟨.answer, .words, 1, 48, 100⟩ ∧
      Latched (observeWhile loopPrimitives {} longWord stopsAtThird) := by
  obtain ⟨deltas, ends, cancelled, -⟩ := delta_boundaries loopPrimitives
  refine ⟨?_, ?_, ?_⟩
  · refine (deltas loopEvents .answer).2.trans ?_
    rw [observe_delta rfl, loopEvents_text]
    decide +kernel
  · refine (ends loopEvents loopTurn rfl (by decide)).trans ?_
    simp only [finish, finishWhile, loopTurn_texts]
    decide +kernel
  · refine (cancelled {} stopsAtThird).1 longWord ⟨2, by decide, ?_, rfl⟩
    rw [observeWhile_longWord]
    decide +kernel

/-- A cancelled observation has read a part of the text. -/
theorem cancelled_observation_reads :
    Cancelled stopsAtThird (observeWhile asciiPrimitives {} longWord stopsAtThird) ∧
      (observeWhile asciiPrimitives {} longWord stopsAtThird).detector.answer.wordChars = 256 := by
  obtain ⟨asked, chars⟩ :
      2 < (observeWhile asciiPrimitives {} longWord stopsAtThird).control.asked ∧
        (observeWhile asciiPrimitives {} longWord stopsAtThird).detector.answer.wordChars =
          256 := by
    rw [observeWhile_longWord]
    decide +kernel
  exact ⟨⟨2, by decide, asked, rfl⟩, chars⟩

end StreamLoopDetector

end Kvist.LoopDetection
