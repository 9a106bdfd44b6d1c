import Mathlib.Data.List.Flatten
import Kvist.Runtime.Recompaction

/-!
# Conversations over many requests

Messages are appended and requests are prepared in any order. A conversation carries more than the
source keeps: every message has a serial number of its own, so that an envelope the manager has
inserted is told apart from a message of the same text, and the groups that went into the summary
are remembered.
-/

set_option autoImplicit false

namespace Kvist.Runtime

structure Conversation where
  manager : ContextManager
  history : Keyed Nat
  next : Nat
  envelopes : List Nat
  folded : List (List Nat)

inductive Move where
  | append (message : ModelMessage)
  | prepare (request : ModelRequest) (reserve : Nat)

namespace Conversation

def start (manager : ContextManager) : Conversation where
  manager := manager
  history := []
  next := 0
  envelopes := []
  folded := []

def messages (conversation : Conversation) : List ModelMessage := conversation.history.map (·.1)

def append (conversation : Conversation) (message : ModelMessage) : Conversation :=
  { conversation with
    history := conversation.history ++ [(message, conversation.next)]
    next := conversation.next + 1 }

/-- The serial number of the message at a position of the request. -/
def serialAt (history : Keyed Nat) (position : Nat) : Nat :=
  ((keysOf history)[position]?).getD 0

/-- The request takes its messages from the conversation, and a rewritten history replaces them. -/
def prepare (fromStr : String → Option Json.Value) (conversation : Conversation)
    (request : ModelRequest) (reserve : Nat) : Conversation :=
  let request := { request with messages := conversation.messages }
  let prepared := conversation.manager.prepare fromStr request reserve
  match prepared.result with
  | .error _ => conversation
  | .ok _ =>
      match conversation.manager.plan fromStr { request with maxOutputTokens := some reserve }
          reserve request.messages.zipIdx with
      | .ok (some rewrite) =>
          { manager := prepared.manager
            history := carried rewrite.summary conversation.next
              (rekey (serialAt conversation.history) rewrite.kept)
            next := conversation.next + 1
            envelopes := conversation.next :: conversation.envelopes
            folded := conversation.folded ++
              rewrite.folded.map (List.map (serialAt conversation.history)) }
      | _ => { conversation with manager := prepared.manager }

def move (fromStr : String → Option Json.Value) (conversation : Conversation) :
    Move → Conversation
  | .append message => conversation.append message
  | .prepare request reserve => conversation.prepare fromStr request reserve

def after (fromStr : String → Option Json.Value) (conversation : Conversation)
    (moves : List Move) : Conversation :=
  moves.foldl (move fromStr) conversation

/-- The messages of the history that the manager has inserted itself. -/
def ownEnvelopes (conversation : Conversation) : Keyed Nat :=
  conversation.history.filter fun entry => conversation.envelopes.contains entry.2

/-! ## Serial numbers -/

theorem rekey_serialAt (history : Keyed Nat) :
    rekey (serialAt history) (history.map (·.1)).zipIdx = history := by
  apply List.ext_getElem
  · simp [rekey]
  · intro index _ bound
    simp [rekey, serialAt, keysOf, bound]

theorem serialAt_injective {history : Keyed Nat} (distinct : (keysOf history).Nodup)
    {left right : Nat} (leftBound : left < history.length) (rightBound : right < history.length)
    (same : serialAt history left = serialAt history right) : left = right := by
  have leftPlace : left < (keysOf history).length := by simpa [keysOf] using leftBound
  have rightPlace : right < (keysOf history).length := by simpa [keysOf] using rightBound
  simp only [serialAt, List.getElem?_eq_getElem leftPlace, List.getElem?_eq_getElem rightPlace,
    Option.getD_some] at same
  exact (distinct.getElem_inj_iff).mp same

theorem serialAt_mem {history : Keyed Nat} {position : Nat} (bound : position < history.length) :
    serialAt history position ∈ keysOf history := by
  have place : position < (keysOf history).length := by simpa [keysOf] using bound
  simp only [serialAt, List.getElem?_eq_getElem place, Option.getD_some]
  exact List.getElem_mem place

theorem priorSummary_serialAt (summary : String) (history : Keyed Nat) :
    priorSummary summary history =
      (priorSummary summary (history.map (·.1)).zipIdx).map (serialAt history) := by
  have renamed := priorSummary_rename summary (history.map (·.1)).zipIdx (serialAt history)
  rw [← renamed]
  exact congrArg (priorSummary summary) (rekey_serialAt history).symm

end Conversation

namespace ContextManager

variable {fromStr : String → Option Json.Value}

theorem eligible_sublist {κ : Type} [DecidableEq κ] (envelope : Option κ) (entries : Keyed κ)
    (groups : List (List κ)) : ((eligible envelope entries groups).map (·.1)).Sublist groups := by
  have sublist := (List.filter_sublist (l := groups.zipIdx) (p := fun indexed =>
    indexed.2 + 1 ≠ groups.length && isFoldable envelope entries indexed.1)).map (·.1)
  rw [List.zipIdx_map_fst] at sublist
  exact sublist

/-- What a rewritten history consists of. -/
structure Rewritten {κ : Type} [DecidableEq κ] (manager : ContextManager) (entries : Keyed κ)
    (rewrite : Rewrite κ) : Prop where
  kept : rewrite.kept = keptEntries (priorSummary manager.summary entries) rewrite.folded entries
  once : rewrite.folded.flatten.Nodup
  among : rewrite.folded.flatten ⊆ keysOf entries
  systems : ∀ entry ∈ entries, entry.1.isSystem = true → entry.2 ∉ rewrite.folded.flatten
  bounded : manager.summary.toList.length ≤ MAX_SUMMARY_CHARS →
    rewrite.summary.toList.length ≤ MAX_SUMMARY_CHARS
  messages : rewrite.messages =
    if rewrite.summary = "" then rewrite.kept.map (·.1)
    else insertSummary (rewrite.kept.map (·.1)) rewrite.summary

theorem planned_rewrite {κ : Type} [DecidableEq κ] {manager : ContextManager}
    {request : ModelRequest} {reserve : Nat} {entries : Keyed κ}
    (distinct : (keysOf entries).Nodup) {rewrite : Rewrite κ}
    (planned : Planned fromStr manager request reserve entries (.ok (some rewrite))) :
    Rewritten manager entries rewrite := by
  generalize same : (Except.ok (some rewrite) : Except Error (Option (Rewrite κ))) = result
    at planned
  cases planned with
  | malformed => cases same
  | early => cases same
  | overflow => cases same
  | @settled groups folded rest grouped _ parts _ window =>
      have same := (Except.ok.inj same).symm
      obtain ⟨fits, few, -⟩ := fitsWindow_iff.mp window
      obtain ⟨rfl, settled, -⟩ := settleSummary_some same fits few
      have complete := completeGroups_ok_iff.mp grouped
      have chosen := eligible_sublist (priorSummary manager.summary entries) entries groups
      rw [parts] at chosen
      have inGroups := ((List.sublist_append_left _ _).trans chosen).flatten
      have keys := inGroups.trans complete.keys_sublist
      exact
        { kept := settled.kept
          once := distinct.sublist keys
          among := keys.subset
          systems := fun entry member system gone =>
            complete.system_outside distinct member system (inGroups.subset gone)
          bounded := fun bounded => settled.bounded.trans (foldSummaries_length bounded)
          messages := settled.messages }

end ContextManager

namespace Conversation

/-! ## The invariant of a conversation -/

structure Wellkept (conversation : Conversation) : Prop where
  bounded : conversation.manager.summary.toList.length ≤ MAX_SUMMARY_CHARS
  distinct : (keysOf conversation.history).Nodup
  foldedOnce : conversation.folded.flatten.Nodup
  apart : ∀ key ∈ keysOf conversation.history, key ∉ conversation.folded.flatten
  historyBelow : ∀ key ∈ keysOf conversation.history, key < conversation.next
  foldedBelow : ∀ key ∈ conversation.folded.flatten, key < conversation.next
  envelopesBelow : ∀ key ∈ conversation.envelopes, key < conversation.next
  own : ∀ key ∈ keysOf conversation.history, key ∈ conversation.envelopes →
    priorSummary conversation.manager.summary conversation.history = some key
  marked : conversation.manager.summary ≠ "" → ∃ key ∈ conversation.envelopes,
    priorSummary conversation.manager.summary conversation.history = some key
  accounted : ∀ key < conversation.next, key ∈ conversation.envelopes ∨
    key ∈ keysOf conversation.history ∨ key ∈ conversation.folded.flatten

theorem wellkept_start {manager : ContextManager} (fresh : manager.summary = "") :
    (start manager).Wellkept := by
  refine ⟨?_, ?_, ?_, ?_, ?_, ?_, ?_, ?_, ?_, ?_⟩ <;> simp [start, keysOf, fresh]

theorem priorSummary_append {κ : Type} {summary : String} {entries : Keyed κ} {key : κ}
    (found : priorSummary summary entries = some key) (later : Keyed κ) :
    priorSummary summary (entries ++ later) = some key := by
  unfold priorSummary at found ⊢
  split at found
  · cases found
  · next present =>
      obtain ⟨entry, first, rfl⟩ := Option.map_eq_some_iff.mp found
      rw [if_neg present, List.find?_append, first]
      rfl

theorem wellkept_append {conversation : Conversation} (kept : conversation.Wellkept)
    (message : ModelMessage) : (conversation.append message).Wellkept := by
  have keys : keysOf (conversation.append message).history =
      keysOf conversation.history ++ [conversation.next] := by
    simp [append, keysOf]
  refine ⟨kept.bounded, ?_, kept.foldedOnce, ?_, ?_, ?_, ?_, ?_, ?_, ?_⟩
  · rw [keys, List.nodup_append]
    refine ⟨kept.distinct, by simp, ?_⟩
    intro key member other last
    have below := kept.historyBelow key member
    rw [List.mem_singleton.mp last]
    omega
  · rw [keys]
    intro key member folded
    rcases List.mem_append.mp member with before | last
    · exact kept.apart key before folded
    · have below := kept.foldedBelow key folded
      rw [List.mem_singleton.mp last] at below
      omega
  · rw [keys]
    intro key member
    simp only [append]
    rcases List.mem_append.mp member with before | last
    · have below := kept.historyBelow key before
      omega
    · rw [List.mem_singleton.mp last]
      omega
  · intro key folded
    exact (kept.foldedBelow key folded).trans (Nat.lt_succ_self _)
  · intro key member
    exact (kept.envelopesBelow key member).trans (Nat.lt_succ_self _)
  · rw [keys]
    intro key member mark
    rcases List.mem_append.mp member with before | last
    · exact priorSummary_append (kept.own key before mark) _
    · have below := kept.envelopesBelow key mark
      rw [List.mem_singleton.mp last] at below
      omega
  · intro present
    obtain ⟨key, mark, found⟩ := kept.marked present
    exact ⟨key, mark, priorSummary_append found _⟩
  · intro key below
    rw [keys]
    rcases Nat.lt_succ_iff_lt_or_eq.mp below with before | rfl
    · rcases kept.accounted key before with mark | present | gone
      · exact .inl mark
      · exact .inr (.inl (List.mem_append_left _ present))
      · exact .inr (.inr gone)
    · exact .inr (.inl (List.mem_append_right _ (List.mem_singleton.mpr rfl)))

theorem keysOf_rekey {κ κ' : Type} (key : κ → κ') (entries : Keyed κ) :
    keysOf (rekey key entries) = (keysOf entries).map key := by
  simp [keysOf, rekey, Function.comp_def]

theorem mem_keysOf_carried {κ : Type} {summary : String} {fresh : κ} {kept : Keyed κ} {key : κ} :
    key ∈ keysOf (carried summary fresh kept) ↔
      key ∈ keysOf kept ∨ summary ≠ "" ∧ key = fresh := by
  unfold carried
  split
  · next empty => simp [empty]
  · next present =>
      rw [(keysOf_insertEntry _ fresh kept).mem_iff]
      simp [present, or_comm]

/-- The split of a history that a rewriting makes, by serial numbers. -/
structure Parted (conversation : Conversation) (kept : Keyed Nat) (folded : List (List Nat)) :
    Prop where
  sublist : (keysOf kept).Sublist (keysOf conversation.history)
  once : folded.flatten.Nodup
  among : folded.flatten ⊆ keysOf conversation.history
  apart : ∀ key ∈ keysOf kept, key ∉ folded.flatten
  unmarked : ∀ key ∈ keysOf kept, key ∉ conversation.envelopes
  whole : ∀ key ∈ keysOf conversation.history,
    key ∈ conversation.envelopes ∨ key ∈ keysOf kept ∨ key ∈ folded.flatten

theorem parted_rewrite {conversation : Conversation} (wellkept : conversation.Wellkept)
    {folded : List (List Nat)} (once : folded.flatten.Nodup)
    (among : folded.flatten ⊆ keysOf conversation.messages.zipIdx) :
    Parted conversation
      (rekey (serialAt conversation.history)
        (keptEntries (priorSummary conversation.manager.summary conversation.messages.zipIdx)
          folded conversation.messages.zipIdx))
      (folded.map (List.map (serialAt conversation.history))) := by
  have whole : keysOf conversation.history =
      (keysOf conversation.messages.zipIdx).map (serialAt conversation.history) := by
    rw [← keysOf_rekey, messages, rekey_serialAt]
  have bounds : ∀ position ∈ keysOf conversation.messages.zipIdx,
      position < conversation.history.length := by
    intro position member
    simpa [keysOf, messages] using member
  have injective : ∀ left ∈ keysOf conversation.messages.zipIdx,
      ∀ right ∈ keysOf conversation.messages.zipIdx,
      serialAt conversation.history left = serialAt conversation.history right → left = right :=
    fun left leftMember right rightMember same =>
      serialAt_injective wellkept.distinct (bounds left leftMember) (bounds right rightMember) same
  have prior := priorSummary_serialAt conversation.manager.summary conversation.history
  have flat : (folded.map (List.map (serialAt conversation.history))).flatten =
      folded.flatten.map (serialAt conversation.history) := List.map_flatten.symm
  refine ⟨?_, ?_, ?_, ?_, ?_, ?_⟩
  · rw [keysOf_rekey, whole]
    exact (keysOf_kept_sublist _ folded _).map _
  · rw [flat]
    exact once.map_on fun left leftMember right rightMember same =>
      injective left (among leftMember) right (among rightMember) same
  · rw [flat, whole]
    exact List.map_subset _ among
  · rw [keysOf_rekey, flat]
    intro key left gone
    obtain ⟨position, inKept, rfl⟩ := List.mem_map.mp left
    obtain ⟨other, inFolded, same⟩ := List.mem_map.mp gone
    obtain ⟨entry, member, rfl⟩ := List.mem_map.mp inKept
    obtain ⟨present, -, absent⟩ := mem_keptEntries.mp member
    obtain rfl := injective other (among inFolded) entry.2
      (List.mem_map.mpr ⟨entry, present, rfl⟩) same
    exact absent inFolded
  · rw [keysOf_rekey]
    intro key left mark
    obtain ⟨position, inKept, rfl⟩ := List.mem_map.mp left
    obtain ⟨entry, member, rfl⟩ := List.mem_map.mp inKept
    obtain ⟨present, foreign, -⟩ := mem_keptEntries.mp member
    have inside : entry.2 ∈ keysOf conversation.messages.zipIdx :=
      List.mem_map.mpr ⟨entry, present, rfl⟩
    have own := wellkept.own _ (serialAt_mem (bounds _ inside)) mark
    rw [prior, Option.map_eq_some_iff] at own
    obtain ⟨position, found, same⟩ := own
    obtain ⟨message, foundMember, -⟩ := priorSummary_mem found
    have equal := injective position (List.mem_map.mpr ⟨_, foundMember, rfl⟩) entry.2 inside same
    exact foreign (equal ▸ found.symm)
  · rw [whole, keysOf_rekey, flat]
    intro key member
    obtain ⟨position, inside, rfl⟩ := List.mem_map.mp member
    obtain ⟨entry, present, rfl⟩ := List.mem_map.mp inside
    by_cases own : some entry.2 =
        priorSummary conversation.manager.summary conversation.messages.zipIdx
    · have nonempty : conversation.manager.summary ≠ "" := by
        intro empty
        rw [empty, priorSummary_empty] at own
        cases own
      obtain ⟨key, mark, found⟩ := wellkept.marked nonempty
      rw [messages] at own
      rw [prior, ← own, Option.map_some, Option.some.injEq] at found
      exact .inl (found ▸ mark)
    · refine .inr ?_
      by_cases gone : entry.2 ∈ folded.flatten
      · exact .inr (List.mem_map.mpr ⟨_, gone, rfl⟩)
      · refine .inl (List.mem_map.mpr ⟨entry.2, List.mem_map.mpr ⟨entry, ?_, rfl⟩, rfl⟩)
        exact mem_keptEntries.mpr ⟨present, own, gone⟩

theorem wellkept_rewrite {conversation : Conversation} (wellkept : conversation.Wellkept)
    {kept : Keyed Nat} {folded : List (List Nat)} (parted : Parted conversation kept folded)
    (manager : ContextManager)
    (bounded : manager.summary.toList.length ≤ MAX_SUMMARY_CHARS) :
    Wellkept
      { manager
        history := carried manager.summary conversation.next kept
        next := conversation.next + 1
        envelopes := conversation.next :: conversation.envelopes
        folded := conversation.folded ++ folded } := by
  have below : ∀ key ∈ keysOf kept, key < conversation.next := fun key member =>
    wellkept.historyBelow key (parted.sublist.subset member)
  have absent : conversation.next ∉ keysOf kept := fun member =>
    absurd (below _ member) (Nat.lt_irrefl _)
  have foldedBelow : ∀ key ∈ folded.flatten, key < conversation.next := fun key member =>
    wellkept.historyBelow key (parted.among member)
  refine ⟨bounded, ?_, ?_, ?_, ?_, ?_, ?_, ?_, ?_, ?_⟩
  · exact carried_nodup (wellkept.distinct.sublist parted.sublist) absent
  · rw [List.flatten_append, List.nodup_append]
    refine ⟨wellkept.foldedOnce, parted.once, ?_⟩
    rintro key earlier _ later rfl
    exact wellkept.apart key (parted.among later) earlier
  · intro key member gone
    rw [List.flatten_append, List.mem_append] at gone
    rcases mem_keysOf_carried.mp member with left | ⟨-, rfl⟩
    · rcases gone with earlier | later
      · exact wellkept.apart key (parted.sublist.subset left) earlier
      · exact parted.apart key left later
    · rcases gone with earlier | later
      · exact absurd (wellkept.foldedBelow _ earlier) (Nat.lt_irrefl _)
      · exact absurd (foldedBelow _ later) (Nat.lt_irrefl _)
  · intro key member
    rcases mem_keysOf_carried.mp member with left | ⟨-, rfl⟩
    · exact (below key left).trans (Nat.lt_succ_self _)
    · exact Nat.lt_succ_self _
  · intro key gone
    rw [List.flatten_append, List.mem_append] at gone
    rcases gone with earlier | later
    · exact (wellkept.foldedBelow key earlier).trans (Nat.lt_succ_self _)
    · exact (foldedBelow key later).trans (Nat.lt_succ_self _)
  · intro key mark
    rcases List.mem_cons.mp mark with rfl | earlier
    · exact Nat.lt_succ_self _
    · exact (wellkept.envelopesBelow key earlier).trans (Nat.lt_succ_self _)
  · intro key member mark
    rw [priorSummary_carried]
    rcases mem_keysOf_carried.mp member with left | ⟨present, rfl⟩
    · rcases List.mem_cons.mp mark with rfl | earlier
      · exact absurd left absent
      · exact absurd earlier (parted.unmarked key left)
    · rw [carriedKey, if_neg present]
  · intro present
    refine ⟨conversation.next, List.mem_cons_self .., ?_⟩
    rw [priorSummary_carried, carriedKey, if_neg present]
  · intro key before
    rcases Nat.lt_succ_iff_lt_or_eq.mp before with earlier | rfl
    · rcases wellkept.accounted key earlier with mark | present | gone
      · exact .inl (List.mem_cons_of_mem _ mark)
      · rcases parted.whole key present with mark | left | gone
        · exact .inl (List.mem_cons_of_mem _ mark)
        · exact .inr (.inl (mem_keysOf_carried.mpr (.inl left)))
        · rw [List.flatten_append]
          exact .inr (.inr (List.mem_append_right _ gone))
      · rw [List.flatten_append]
        exact .inr (.inr (List.mem_append_left _ gone))
    · exact .inl (List.mem_cons_self ..)

theorem prepare_cases (fromStr : String → Option Json.Value) (conversation : Conversation)
    (request : ModelRequest) (reserve : Nat) :
    (conversation.prepare fromStr request reserve = conversation ∧
      (conversation.manager.prepare fromStr
        { request with messages := conversation.messages } reserve).manager =
          conversation.manager ∧
      (conversation.manager.prepare fromStr
        { request with messages := conversation.messages } reserve).request.messages =
          conversation.messages) ∨
    ∃ rewrite manager,
      conversation.manager.plan fromStr { request with
          messages := conversation.messages
          maxOutputTokens := some reserve } reserve conversation.messages.zipIdx =
        .ok (some rewrite) ∧
      manager.summary = rewrite.summary ∧
      (conversation.manager.prepare fromStr
        { request with messages := conversation.messages } reserve).manager = manager ∧
      (conversation.manager.prepare fromStr
        { request with messages := conversation.messages } reserve).request.messages =
          rewrite.messages ∧
      conversation.prepare fromStr request reserve =
        { manager
          history := carried manager.summary conversation.next
            (rekey (serialAt conversation.history) rewrite.kept)
          next := conversation.next + 1
          envelopes := conversation.next :: conversation.envelopes
          folded := conversation.folded ++
            rewrite.folded.map (List.map (serialAt conversation.history)) } := by
  simp only [prepare, ContextManager.prepare]
  cases conversation.manager.validSettings reserve with
  | false => exact .inl ⟨rfl, rfl, rfl⟩
  | true =>
      cases conversation.manager.plan fromStr { request with
          messages := conversation.messages
          maxOutputTokens := some reserve } reserve conversation.messages.zipIdx with
      | error error => exact .inl ⟨rfl, rfl, rfl⟩
      | ok outcome =>
          cases outcome with
          | none => exact .inl ⟨rfl, rfl, rfl⟩
          | some rewrite => exact .inr ⟨rewrite, _, rfl, rfl, rfl, rfl, rfl⟩

theorem prepare_messages (fromStr : String → Option Json.Value) (conversation : Conversation)
    (request : ModelRequest) (reserve : Nat) :
    (conversation.prepare fromStr request reserve).messages =
        (conversation.manager.prepare fromStr
          { request with messages := conversation.messages } reserve).request.messages ∧
      (conversation.prepare fromStr request reserve).manager =
        (conversation.manager.prepare fromStr
          { request with messages := conversation.messages } reserve).manager := by
  rcases prepare_cases fromStr conversation request reserve with
    ⟨same, manager, messages⟩ | ⟨rewrite, manager, plan, summary, own, messages, same⟩
  · rw [same, manager, messages]
    exact ⟨rfl, rfl⟩
  · have planned := ContextManager.plan_planned fromStr conversation.manager
      { request with messages := conversation.messages, maxOutputTokens := some reserve } reserve
      conversation.messages.zipIdx
    rw [plan] at planned
    have rewritten :=
      ContextManager.planned_rewrite (keysOf_zipIdx_nodup conversation.messages) planned
    rw [same, own, messages, rewritten.messages]
    refine ⟨?_, rfl⟩
    rw [Conversation.messages, carried_messages, summary]
    simp [rekey, Function.comp_def]

theorem wellkept_prepare {conversation : Conversation} (wellkept : conversation.Wellkept)
    (fromStr : String → Option Json.Value) (request : ModelRequest) (reserve : Nat) :
    (conversation.prepare fromStr request reserve).Wellkept := by
  rcases prepare_cases fromStr conversation request reserve with
    ⟨same, -, -⟩ | ⟨rewrite, manager, plan, summary, -, -, same⟩
  · rw [same]
    exact wellkept
  · have planned := ContextManager.plan_planned fromStr conversation.manager
      { request with messages := conversation.messages, maxOutputTokens := some reserve } reserve
      conversation.messages.zipIdx
    rw [plan] at planned
    have rewritten :=
      ContextManager.planned_rewrite (keysOf_zipIdx_nodup conversation.messages) planned
    have parted := parted_rewrite wellkept rewritten.once rewritten.among
    rw [same]
    rw [← rewritten.kept] at parted
    exact wellkept_rewrite wellkept parted manager (summary ▸ rewritten.bounded wellkept.bounded)

theorem wellkept_after (fromStr : String → Option Json.Value) {conversation : Conversation}
    (wellkept : conversation.Wellkept) (moves : List Move) :
    (conversation.after fromStr moves).Wellkept := by
  induction moves generalizing conversation with
  | nil => exact wellkept
  | cons move rest ih =>
      apply ih
      cases move with
      | append message => exact wellkept_append wellkept message
      | prepare request reserve => exact wellkept_prepare wellkept fromStr request reserve

/-! ## The summary over a conversation -/

theorem eq_singleton {α : Type} {items : List α} {item : α} (distinct : items.Nodup)
    (member : item ∈ items) (only : ∀ other ∈ items, other = item) : items = [item] := by
  cases items with
  | nil => cases member
  | cons first rest =>
      obtain rfl := only first (List.mem_cons_self ..)
      cases rest with
      | nil => rfl
      | cons second rest =>
          obtain rfl := only second (by simp)
          simp at distinct

/-- The history holds one envelope of the manager, and none for an empty summary. -/
theorem ownEnvelopes_eq {conversation : Conversation} (wellkept : conversation.Wellkept) :
    (conversation.manager.summary = "" ∧ conversation.ownEnvelopes = []) ∨
      (conversation.manager.summary ≠ "" ∧ ∃ key, conversation.ownEnvelopes =
        [(summaryMessage conversation.manager.summary, key)]) := by
  have own : ∀ entry ∈ conversation.ownEnvelopes, entry ∈ conversation.history ∧
      priorSummary conversation.manager.summary conversation.history = some entry.2 := by
    intro entry member
    obtain ⟨present, mark⟩ := List.mem_filter.mp member
    exact ⟨present, wellkept.own _ (List.mem_map.mpr ⟨entry, present, rfl⟩)
      (List.contains_iff_mem.mp mark)⟩
  by_cases empty : conversation.manager.summary = ""
  · refine .inl ⟨empty, List.eq_nil_iff_forall_not_mem.mpr fun entry member => ?_⟩
    obtain ⟨-, found⟩ := own entry member
    rw [empty, priorSummary_empty] at found
    cases found
  · obtain ⟨key, mark, found⟩ := wellkept.marked empty
    obtain ⟨message, present, envelope⟩ := priorSummary_mem found
    rw [isEnvelope_iff.mp envelope] at present
    refine .inr ⟨empty, key, eq_singleton ?_ ?_ ?_⟩
    · exact (List.Nodup.of_map _ wellkept.distinct).filter _
    · exact List.mem_filter.mpr ⟨present, List.contains_iff_mem.mpr mark⟩
    · intro entry member
      obtain ⟨among, prior⟩ := own entry member
      rw [found] at prior
      exact List.inj_on_of_nodup_map wellkept.distinct among present (Option.some.inj prior).symm

/-- What holds of the summary in every state of a conversation. -/
structure SummaryKept (fromStr : String → Option Json.Value) (conversation : Conversation) :
    Prop where
  present : conversation.manager.summary ≠ "" ↔ ∃ key, conversation.ownEnvelopes =
    [(summaryMessage conversation.manager.summary, key)]
  absent : conversation.manager.summary = "" ↔ conversation.ownEnvelopes = []
  bounded : conversation.manager.summary.toList.length ≤ MAX_SUMMARY_CHARS
  foldedOnce : conversation.folded.flatten.Nodup
  foldedGone : ∀ key ∈ keysOf conversation.history, key ∉ conversation.folded.flatten
  removedFolded : ∀ key < conversation.next, key ∈ conversation.envelopes ∨
    key ∈ keysOf conversation.history ∨ key ∈ conversation.folded.flatten
  prepared : ∀ (request : ModelRequest) (reserve : Nat),
    (conversation.prepare fromStr request reserve).messages =
        (conversation.manager.prepare fromStr
          { request with messages := conversation.messages } reserve).request.messages ∧
      (conversation.prepare fromStr request reserve).manager =
        (conversation.manager.prepare fromStr
          { request with messages := conversation.messages } reserve).manager
  again : ∀ (request : ModelRequest) (reserve : Nat) (compaction : Option Compaction)
      (prepared : ContextManager.Prepared),
    conversation.manager.prepare fromStr { request with messages := conversation.messages }
        reserve = prepared →
      prepared.result = .ok compaction →
      prepared.manager.prepare fromStr prepared.request reserve =
        ⟨.ok none, prepared.manager, prepared.request⟩

/-- Every sequence of appended messages and prepared requests keeps the summary in order. -/
theorem summaryKept_after (fromStr : String → Option Json.Value)
    (limitTokens warmupTokens keepFullTurns : Nat) (moves : List Move) :
    SummaryKept fromStr ((start
      (ContextManager.withBounds limitTokens warmupTokens keepFullTurns)).after fromStr moves) := by
  have fresh : (ContextManager.withBounds limitTokens warmupTokens keepFullTurns).summary = "" :=
    rfl
  have wellkept := wellkept_after fromStr (wellkept_start fresh) moves
  have envelopes := ownEnvelopes_eq wellkept
  refine ⟨?_, ?_, wellkept.bounded, wellkept.foldedOnce, wellkept.apart, wellkept.accounted,
    prepare_messages fromStr _, ?_⟩
  · rcases envelopes with ⟨empty, none⟩ | ⟨present, own⟩
    · simp [empty, none]
    · exact ⟨fun _ => own, fun _ => present⟩
  · rcases envelopes with ⟨empty, none⟩ | ⟨present, key, own⟩
    · exact ⟨fun _ => none, fun _ => empty⟩
    · simp [present, own]
  · rintro request reserve compaction prepared rfl succeeded
    exact ContextManager.prepare_again fromStr succeeded

end Conversation

end Kvist.Runtime
