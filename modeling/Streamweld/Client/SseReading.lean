import Streamweld.Client.SseParser
import Streamweld.Lib.Lines

/-!
# What the client's parser reads in a text

A text is read without the parser's state: its lines, the blocks between empty
lines, the bytes of a block and the event of a block.  A carriage return at the
end of a text is held back, since a line feed may follow it.

* `takeLines_blocks`: taking the lines one by one gives the events of the blocks,
  and is refused exactly when a block has more bytes than the limit;
* `consumeLines_split`: `consumeLines` takes the lines of the text;
* `accept_eq`: a text is accepted exactly when its blocks fit;
* `fits_of_append` and `accept_more`: what was accepted stays when more text follows.
-/

namespace Streamweld.Client

open Streamweld.Lib

variable {line text : List Char} {max : Nat}

/-! ## Blocks of lines -/

/-- The values of the fields with a name. -/
def fieldValues (name : String) (lines : List (List Char)) : List (List Char) :=
  lines.filterMap fun line =>
    if (splitField line).1 = name.toList then some (splitField line).2 else none

/-- The last identifier that is not ignored. -/
def lastId (lines : List (List Char)) : Option (List Char) :=
  ((fieldValues "id" lines).filter fun value => Char.ofNat 0 ∉ value).getLast?

def lastRetry (lines : List (List Char)) : Option Nat :=
  ((fieldValues "retry" lines).filterMap parseRetry).getLast?

/-- The bytes of a block without its line endings. -/
def blockBytes (lines : List (List Char)) : Nat :=
  (lines.map fun line => (Utf8.encode line).length).sum

/-- The event of a block; there is none without data. -/
def blockEvent (lines : List (List Char)) : Option ParsedSSEEvent :=
  let type := (fieldValues "event" lines).getLast?.getD []
  if fieldValues "data" lines = [] then none
  else some
    { data := ['\n'].intercalate (fieldValues "data" lines)
      event := if type = [] then "message".toList else type
      id := lastId lines
      retry := lastRetry lines }

/-- The lines between empty lines. -/
def lineBlocks (block lines : List (List Char)) : List (List (List Char)) × List (List Char) :=
  Lines.blocks (fun line => line = []) block lines

/-! ## Texts -/

/-- The text up to a carriage return at its end. -/
def held (text : List Char) : List Char :=
  if text.getLast? = some '\r' then text.dropLast else text

/-- The lines of a text, and the line that has not ended. -/
def textLines (text : List Char) : List (List Char) × List Char := Lines.split '\r' '\n' text

/-- The events of the blocks that the lines complete. -/
def lineEvents (lines : List (List Char)) : List ParsedSSEEvent :=
  (lineBlocks [] lines).1.filterMap blockEvent

/-- Every block of the text fits the limit, the open one with the line that has not
ended. -/
def Fits (max : Nat) (text : List Char) : Prop :=
  (∀ block ∈ (lineBlocks [] (textLines (held text)).1).1, blockBytes block ≤ max) ∧
    blockBytes ((lineBlocks [] (textLines (held text)).1).2 ++ [(textLines (held text)).2]) ≤ max

instance (max : Nat) (text : List Char) : Decidable (Fits max text) :=
  inferInstanceAs (Decidable (_ ∧ _))

/-- The events that end in the text. -/
def eventsIn (text : List Char) : List ParsedSSEEvent := lineEvents (textLines (held text)).1

/-! ## The open event -/

/-- What the parser has collected of a block. -/
def bufferOf (block : List (List Char)) : EventBuffer where
  eventBytes := blockBytes block
  data := fieldValues "data" block
  eventType := (fieldValues "event" block).getLast?.getD []
  eventId := lastId block
  retry := lastRetry block

theorem blockBytes_append (a b : List (List Char)) :
    blockBytes (a ++ b) = blockBytes a + blockBytes b := by
  unfold blockBytes
  rw [List.map_append, List.sum_append]

theorem blockBytes_singleton (line : List Char) :
    blockBytes [line] = (Utf8.encode line).length := by
  simp [blockBytes]

theorem fieldValues_of_name {name : String} (h : (splitField line).1 = name.toList)
    (block : List (List Char)) :
    fieldValues name (block ++ [line]) = fieldValues name block ++ [(splitField line).2] := by
  simp [fieldValues, h]

theorem fieldValues_of_other {name : String} (h : (splitField line).1 ≠ name.toList)
    (block : List (List Char)) : fieldValues name (block ++ [line]) = fieldValues name block := by
  simp [fieldValues, h]

/-- A line with another name, or a comment, only adds its bytes. -/
theorem bufferOf_of_other (hdata : (splitField line).1 ≠ "data".toList)
    (hevent : (splitField line).1 ≠ "event".toList) (hid : (splitField line).1 ≠ "id".toList)
    (hretry : (splitField line).1 ≠ "retry".toList) (block : List (List Char)) :
    bufferOf (block ++ [line]) =
      { bufferOf block with eventBytes := blockBytes (block ++ [line]) } := by
  unfold bufferOf lastId lastRetry
  rw [fieldValues_of_other hdata, fieldValues_of_other hevent, fieldValues_of_other hid,
    fieldValues_of_other hretry]

/-- One field. -/
theorem setField_bufferOf (line : List Char) (block : List (List Char)) :
    setField (splitField line).1 (splitField line).2
        { bufferOf block with eventBytes := blockBytes (block ++ [line]) } =
      bufferOf (block ++ [line]) := by
  have hde : "data".toList ≠ "event".toList := by decide
  have hdi : "data".toList ≠ "id".toList := by decide
  have hdr : "data".toList ≠ "retry".toList := by decide
  have hei : "event".toList ≠ "id".toList := by decide
  have her : "event".toList ≠ "retry".toList := by decide
  have hir : "id".toList ≠ "retry".toList := by decide
  unfold setField
  by_cases hdata : (splitField line).1 = "data".toList
  · rw [if_pos hdata]
    unfold bufferOf lastId lastRetry
    rw [fieldValues_of_name hdata, fieldValues_of_other (hdata ▸ hde),
      fieldValues_of_other (hdata ▸ hdi), fieldValues_of_other (hdata ▸ hdr)]
  rw [if_neg hdata]
  by_cases hevent : (splitField line).1 = "event".toList
  · rw [if_pos hevent]
    unfold bufferOf lastId lastRetry
    rw [fieldValues_of_other hdata, fieldValues_of_name hevent,
      fieldValues_of_other (hevent ▸ hei), fieldValues_of_other (hevent ▸ her),
      List.getLast?_concat, Option.getD_some]
  rw [if_neg hevent]
  by_cases hid : (splitField line).1 = "id".toList
  · rw [if_pos hid]
    unfold bufferOf lastId lastRetry
    rw [fieldValues_of_other hdata, fieldValues_of_other hevent, fieldValues_of_name hid,
      fieldValues_of_other (hid ▸ hir)]
    by_cases hnul : Char.ofNat 0 ∈ (splitField line).2
    · rw [if_pos hnul]
      simp [hnul]
    · rw [if_neg hnul]
      simp [hnul]
  rw [if_neg hid]
  by_cases hretry : (splitField line).1 = "retry".toList
  · rw [if_pos hretry]
    unfold bufferOf lastId lastRetry
    rw [fieldValues_of_other hdata, fieldValues_of_other hevent, fieldValues_of_other hid,
      fieldValues_of_name hretry]
    cases hparse : parseRetry (splitField line).2 with
    | some retry => simp [hparse]
    | none => simp [hparse]
  rw [if_neg hretry, bufferOf_of_other hdata hevent hid hretry]

/-- One more line that is not empty. -/
theorem processLine_bufferOf (hne : line ≠ []) (block : List (List Char)) :
    processLine line { bufferOf block with eventBytes := blockBytes (block ++ [line]) } =
      (bufferOf (block ++ [line]), none) := by
  unfold processLine
  rw [if_neg hne]
  by_cases hcomment : line.head? = some ':'
  · have hname : (splitField line).1 = [] := by
      obtain ⟨rest, rfl⟩ := List.head?_eq_some_iff.mp hcomment
      rfl
    rw [if_pos hcomment, bufferOf_of_other]
    · rw [hname]; decide
    · rw [hname]; decide
    · rw [hname]; decide
    · rw [hname]; decide
  · rw [if_neg hcomment]
    exact congrArg (·, none) (setField_bufferOf line block)

/-- A line that is not empty, in the middle of a block. -/
theorem takeLine_bufferOf (hne : line ≠ []) (block : List (List Char)) :
    takeLine max line (bufferOf block) =
      if blockBytes (block ++ [line]) ≤ max then
        .ok { pending := [], buffer := bufferOf (block ++ [line]), events := [] }
      else .error (tooLarge max) := by
  have hbytes : (bufferOf block).eventBytes + (Utf8.encode line).length =
      blockBytes (block ++ [line]) := by
    rw [blockBytes_append, blockBytes_singleton]
    rfl
  by_cases hfit : blockBytes (block ++ [line]) ≤ max
  · rw [if_pos hfit, takeLine_of_le (by rw [hbytes]; exact hfit)]
    dsimp only
    rw [hbytes, processLine_bufferOf hne]
    rfl
  · rw [if_neg hfit]
    unfold takeLine account
    dsimp only
    rw [hbytes, if_pos (not_le.mp hfit)]
    rfl

/-- An empty line ends the block. -/
theorem takeLine_nil {block : List (List Char)} (hfit : blockBytes block ≤ max) :
    takeLine max [] (bufferOf block) =
      .ok { pending := [], buffer := bufferOf [], events := (blockEvent block).toList } := by
  rw [takeLine_of_le (by rw [Utf8.encode_nil, List.length_nil]; exact hfit)]
  rfl

theorem blockEvent_concat_nil (block : List (List Char)) :
    blockEvent (block ++ [[]]) = blockEvent block := by
  have hother {name : String} (h : [] ≠ name.toList) :
      fieldValues name (block ++ [[]]) = fieldValues name block := @fieldValues_of_other [] name h block
  unfold blockEvent lastId lastRetry
  rw [hother (by decide), hother (by decide), hother (by decide), hother (by decide)]

/-! ## Taking lines -/

/-- A block that has begun is part of one of the blocks. -/
theorem bytes_of_blocks {lines block : List (List Char)}
    (h : (∀ b ∈ (lineBlocks block lines).1, blockBytes b ≤ max) ∧
      blockBytes (lineBlocks block lines).2 ≤ max) : blockBytes block ≤ max := by
  have hlonger {more : List (List Char)} (hle : blockBytes (block ++ more) ≤ max) :
      blockBytes block ≤ max := by
    rw [blockBytes_append] at hle
    omega
  unfold lineBlocks at h
  induction lines generalizing block with
  | nil => exact h.2
  | cons line lines ih =>
    rw [Lines.blocks] at h
    by_cases hline : line = []
    · rw [if_pos hline] at h
      exact hlonger (h.1 _ List.mem_cons_self)
    · rw [if_neg hline] at h
      refine hlonger (ih h ?_)
      intro more hle
      rw [blockBytes_append] at hle
      omega

/-- Lines from the middle of a block: the events of the blocks, unless one is too
large. -/
theorem takeLines_blocks (lines block : List (List Char)) (hblock : blockBytes block ≤ max) :
    takeLines max lines (bufferOf block) =
      if (∀ b ∈ (lineBlocks block lines).1, blockBytes b ≤ max) ∧
          blockBytes (lineBlocks block lines).2 ≤ max then
        .ok { pending := [], buffer := bufferOf (lineBlocks block lines).2
              events := (lineBlocks block lines).1.filterMap blockEvent }
      else .error (tooLarge max) := by
  induction lines generalizing block with
  | nil => exact (if_pos ⟨List.forall_mem_nil _, hblock⟩).symm
  | cons line lines ih =>
    unfold lineBlocks at ih ⊢
    rw [takeLines, Lines.blocks]
    by_cases hline : line = []
    · subst hline
      rw [if_pos rfl, takeLine_nil hblock, continueWith_ok]
      dsimp only
      rw [ih [] (Nat.zero_le _)]
      have hbytes : blockBytes (block ++ [[]]) ≤ max := by
        rw [blockBytes_append]
        exact hblock
      by_cases hrest : (∀ b ∈ (Lines.blocks (fun line => line = []) [] lines).1,
          blockBytes b ≤ max) ∧ blockBytes (Lines.blocks (fun line => line = []) [] lines).2 ≤ max
      · rw [if_pos hrest, if_pos ⟨List.forall_mem_cons.mpr ⟨hbytes, hrest.1⟩, hrest.2⟩,
          List.filterMap_cons, blockEvent_concat_nil]
        cases blockEvent block with
        | none => rfl
        | some event => rfl
      · rw [if_neg hrest,
          if_neg fun hall => hrest ⟨(List.forall_mem_cons.mp hall.1).2, hall.2⟩]
        rfl
    · rw [if_neg hline, takeLine_bufferOf hline]
      by_cases hfit : blockBytes (block ++ [line]) ≤ max
      · rw [if_pos hfit, continueWith_start]
        exact ih _ hfit
      · rw [if_neg hfit, if_neg]
        · rfl
        · exact fun hall => hfit (bytes_of_blocks hall)

/-! ## Texts and their lines -/

/-- A carriage return that was held back. -/
def returned (text : List Char) : List Char :=
  if text.getLast? = some '\r' then ['\r'] else []

theorem plain_iff : Lines.Plain '\r' '\n' line ↔ ∀ c ∈ line, Plain c := by
  constructor
  · intro h c hc
    exact ⟨fun heq => h.1 (heq ▸ hc), fun heq => h.2 (heq ▸ hc)⟩
  · intro h
    exact ⟨fun hmem => (h _ hmem).1 rfl, fun hmem => (h _ hmem).2 rfl⟩

theorem held_append {rest : List Char} (h : rest ≠ []) (line : List Char) :
    held (line ++ rest) = line ++ held rest := by
  unfold held
  rw [List.getLast?_append_of_ne_nil _ h]
  split
  · exact List.dropLast_append_of_ne_nil h
  · rfl

theorem returned_append {rest : List Char} (h : rest ≠ []) (line : List Char) :
    returned (line ++ rest) = returned rest := by
  unfold returned
  rw [List.getLast?_append_of_ne_nil _ h]

theorem held_plain (h : Lines.Plain '\r' '\n' line) : held line = line ∧ returned line = [] := by
  have hlast : line.getLast? ≠ some '\r' := fun hlast => h.1 (List.mem_of_getLast? hlast)
  exact ⟨if_neg hlast, if_neg hlast⟩

theorem held_feed (rest : List Char) :
    held ('\n' :: rest) = '\n' :: held rest ∧ returned ('\n' :: rest) = returned rest := by
  by_cases h : rest = []
  · subst h
    decide
  · exact ⟨held_append h ['\n'], returned_append h ['\n']⟩

theorem held_skip (rest : List Char) :
    Lines.skip '\n' (held rest) = held (Lines.skip '\n' rest) ∧
      returned (Lines.skip '\n' rest) = returned rest := by
  cases rest with
  | nil => exact ⟨rfl, rfl⟩
  | cons d rest =>
    have hsplit : d :: rest = [d] ++ rest := rfl
    by_cases hrest : rest = []
    · subst hrest
      by_cases hd : d = '\n'
      · subst hd
        decide
      · have hskip : Lines.skip '\n' [d] = [d] := if_neg (by simpa using hd)
        rw [hskip]
        refine ⟨?_, rfl⟩
        by_cases hreturn : d = '\r'
        · subst hreturn
          decide
        · have hheld : held [d] = [d] := if_neg (by simpa using hreturn)
          rw [hheld, hskip]
    · rw [hsplit, held_append hrest, returned_append hrest]
      by_cases hd : d = '\n'
      · subst hd
        exact ⟨rfl, rfl⟩
      · have hskip (tail : List Char) : Lines.skip '\n' ([d] ++ tail) = [d] ++ tail :=
          if_neg (by simpa using hd)
        rw [hskip, hskip, held_append hrest, returned_append hrest]
        exact ⟨rfl, rfl⟩

/-- `consumeLines` takes the lines of the text. -/
theorem consumeLines_split (text : List Char) (buffer : EventBuffer) :
    consumeLines max false [] text buffer =
      (takeLines max (textLines (held text)).1 buffer).map fun taken =>
        { taken with pending := (textLines (held text)).2 ++ returned text } := by
  -- the first line is taken off both
  induction hlen : text.length using Nat.strongRecOn generalizing text buffer with
  | ind n ih =>
  have hnext {line tail : List Char} (htail : tail.length < n)
      (hlines : textLines (held text) = (line :: (textLines (held tail)).1, (textLines (held tail)).2))
      (hreturned : returned text = returned tail) :
      continueWith (takeLine max line buffer) (fun line buffer =>
          consumeLines max false line tail buffer) =
        (takeLines max (textLines (held text)).1 buffer).map fun taken =>
          { taken with pending := (textLines (held text)).2 ++ returned text } := by
    rw [hlines, hreturned, takeLines]
    cases htake : takeLine max line buffer with
    | error e => rfl
    | ok taken =>
      rw [continueWith_ok, continueWith_ok, takeLine_pending htake, ih _ htail tail _ rfl]
      cases takeLines max (textLines (held tail)).1 taken.buffer with
      | error e => rfl
      | ok more => rfl
  obtain hplain | ⟨line, rest, hline, rfl⟩ | ⟨line, rest, hline, rfl⟩ := Lines.cut '\r' '\n' text
  · have hconsume := @consumeLines_plain max false [] text buffer (plain_iff.mp hplain) []
    rw [List.append_nil, List.nil_append, consumeLines] at hconsume
    obtain ⟨hheld, hreturned⟩ := held_plain hplain
    rw [hconsume, hheld, hreturned, textLines, Lines.split_plain hplain, List.append_nil]
    rfl
  · have hne : '\n' :: rest ≠ [] := List.cons_ne_nil _ _
    have hshort : rest.length < n := by
      rw [List.length_append, List.length_cons] at hlen
      omega
    rw [consumeLines_plain (plain_iff.mp hline), List.nil_append, consumeLines_feed]
    refine hnext hshort ?_ ?_
    · rw [held_append hne, (held_feed rest).1, textLines, Lines.split_line_feed (by decide) hline]
      rfl
    · rw [returned_append hne, (held_feed rest).2]
  · have hne : '\r' :: rest ≠ [] := List.cons_ne_nil _ _
    rw [consumeLines_plain (plain_iff.mp hline), List.nil_append]
    cases rest with
    | nil =>
      -- the carriage return is held back
      have hheld : held ['\r'] = [] ∧ returned ['\r'] = ['\r'] := by decide
      rw [consumeLines_return_nil, held_append hne, returned_append hne, hheld.1, hheld.2,
        List.append_nil, textLines, Lines.split_plain hline]
      rfl
    | cons d rest =>
      have hskipped := Lines.skip_length '\n' (d :: rest)
      have hshort : (Lines.skip '\n' (d :: rest)).length < n := by
        rw [List.length_append, List.length_cons] at hlen
        omega
      have hconsume (line : List Char) (buffer : EventBuffer) :
          (if d = '\n' then consumeLines max false line rest buffer
            else consumeLines max false line (d :: rest) buffer) =
          consumeLines max false line (Lines.skip '\n' (d :: rest)) buffer := by
        by_cases hd : d = '\n'
        · rw [if_pos hd, hd]
          rfl
        · rw [if_neg hd, Lines.skip, if_neg (by simpa using hd)]
      have hrest : d :: rest ≠ [] := List.cons_ne_nil _ _
      obtain ⟨hskip, hreturned⟩ := held_skip (d :: rest)
      rw [consumeLines_return]
      simp only [hconsume]
      refine hnext hshort ?_ ?_
      · rw [held_append hne, show '\r' :: d :: rest = ['\r'] ++ d :: rest from rfl,
          held_append hrest, textLines, List.singleton_append, Lines.split_line_return hline, hskip]
        rfl
      · rw [returned_append hne, show '\r' :: d :: rest = ['\r'] ++ d :: rest from rfl,
          returned_append hrest, hreturned]

/-! ## Accepted texts -/

/-- What is left of a text that was accepted. -/
def stateAfter (text : List Char) : Consumed where
  pending := (textLines (held text)).2 ++ returned text
  buffer := bufferOf (lineBlocks [] (textLines (held text)).1).2
  events := eventsIn text

/-- The line that has not ended has no ending in it. -/
theorem textLines_plain (text : List Char) : Lines.Plain '\r' '\n' (textLines text).2 := by
  unfold textLines
  induction hlen : text.length using Nat.strongRecOn generalizing text with
  | ind n ih =>
  obtain hplain | ⟨line, rest, hline, rfl⟩ | ⟨line, rest, hline, rfl⟩ := Lines.cut '\r' '\n' text
  · rw [Lines.split_plain hplain]
    exact hplain
  · rw [Lines.split_line_feed (by decide) hline]
    rw [List.length_append, List.length_cons] at hlen
    exact ih _ (by omega) rest rfl
  · have hskipped := Lines.skip_length '\n' rest
    rw [Lines.split_line_return hline]
    rw [List.length_append, List.length_cons] at hlen
    exact ih _ (by omega) _ rfl

theorem boundPendingLine_eq (pending : List Char) (buffer : EventBuffer) :
    boundPendingLine max pending buffer =
      if buffer.eventBytes + (Utf8.encode (held pending)).length > max then
        .error (tooLarge max) else .ok () := rfl

/-- Without the carriage return, what is left is the line that has not ended. -/
theorem held_pending (text : List Char) :
    held ((textLines (held text)).2 ++ returned text) = (textLines (held text)).2 := by
  have hplain := textLines_plain (held text)
  unfold returned
  split
  · rw [held_append (List.cons_ne_nil _ _)]
    exact List.append_nil _
  · rw [List.append_nil]
    exact (held_plain hplain).1

theorem bound_stateAfter :
    boundPendingLine max (stateAfter text).pending (stateAfter text).buffer =
      if blockBytes ((lineBlocks [] (textLines (held text)).1).2 ++ [(textLines (held text)).2]) ≤ max
      then .ok () else .error (tooLarge max) := by
  rw [boundPendingLine_eq, blockBytes_append, blockBytes_singleton]
  unfold stateAfter
  dsimp only
  rw [held_pending]
  by_cases hfit : blockBytes (lineBlocks [] (textLines (held text)).1).2 +
      (Utf8.encode (textLines (held text)).2).length ≤ max
  · rw [if_pos hfit]
    exact if_neg (not_lt.mpr hfit)
  · rw [if_neg hfit]
    exact if_pos (not_le.mp hfit)

/-- A text is accepted by `consumeLines` and `boundPendingLine` exactly when its
blocks fit. -/
theorem accept_eq (text : List Char) :
    ((consumeLines max false [] text .empty).bind fun consumed =>
        (boundPendingLine max consumed.pending consumed.buffer).map fun _ => consumed) =
      if Fits max text then .ok (stateAfter text) else .error (tooLarge max) := by
  have hempty : EventBuffer.empty = bufferOf [] := rfl
  rw [consumeLines_split, hempty, takeLines_blocks _ _ (Nat.zero_le _)]
  by_cases hblocks : (∀ b ∈ (lineBlocks [] (textLines (held text)).1).1, blockBytes b ≤ max) ∧
      blockBytes (lineBlocks [] (textLines (held text)).1).2 ≤ max
  · rw [if_pos hblocks]
    show (boundPendingLine max (stateAfter text).pending (stateAfter text).buffer).map
      (fun _ => stateAfter text) = _
    rw [bound_stateAfter]
    by_cases hrest : blockBytes ((lineBlocks [] (textLines (held text)).1).2 ++
        [(textLines (held text)).2]) ≤ max
    · rw [if_pos hrest, if_pos ⟨hblocks.1, hrest⟩]
      rfl
    · rw [if_neg hrest, if_neg fun hfits => hrest hfits.2]
      rfl
  · rw [if_neg hblocks, if_neg]
    · rfl
    · intro hfits
      refine hblocks ⟨hfits.1, ?_⟩
      have := hfits.2
      rw [blockBytes_append] at this
      omega

theorem fits_iff :
    Fits max text ↔ ∃ consumed, consumeLines max false [] text .empty = .ok consumed ∧
      boundPendingLine max consumed.pending consumed.buffer = .ok () := by
  have haccept := @accept_eq max text
  cases hconsume : consumeLines max false [] text .empty with
  | error e =>
    rw [hconsume] at haccept
    refine ⟨fun hfits => ?_, fun ⟨_, h, _⟩ => by cases h⟩
    rw [if_pos hfits] at haccept
    cases haccept
  | ok consumed =>
    rw [hconsume] at haccept
    cases hbound : boundPendingLine max consumed.pending consumed.buffer with
    | error e =>
      refine ⟨fun hfits => ?_, fun ⟨_, h, hok⟩ => ?_⟩
      · rw [if_pos hfits] at haccept
        change (boundPendingLine max consumed.pending consumed.buffer).map _ = _ at haccept
        rw [hbound] at haccept
        cases haccept
      · cases h
        rw [hbound] at hok
        cases hok
    | ok _ =>
      refine ⟨fun _ => ⟨consumed, rfl, hbound⟩, fun _ => ?_⟩
      by_contra hfits
      rw [if_neg hfits] at haccept
      change (boundPendingLine max consumed.pending consumed.buffer).map _ = _ at haccept
      rw [hbound] at haccept
      cases haccept

/-- What `consumeLines` leaves of an accepted text. -/
theorem consumeLines_of_fits (h : Fits max text) :
    consumeLines max false [] text .empty = .ok (stateAfter text) := by
  have haccept := @accept_eq max text
  obtain ⟨consumed, hconsume, hbound⟩ := fits_iff.mp h
  rw [if_pos h, hconsume] at haccept
  change (boundPendingLine max consumed.pending consumed.buffer).map _ = _ at haccept
  rw [hbound] at haccept
  cases haccept
  exact hconsume

theorem held_returned (text : List Char) : held text ++ returned text = text := by
  unfold held returned
  split
  · next hlast =>
    obtain ⟨init, rfl⟩ := List.getLast?_eq_some_iff.mp hlast
    rw [List.dropLast_concat]
  · exact List.append_nil text

/-- A line that has not ended fits if what follows it is accepted. -/
theorem bound_of_accept {more : List Char} {buffer : EventBuffer} {consumed : Consumed}
    (hline : Lines.Plain '\r' '\n' line)
    (h : consumeLines max false [] (line ++ more) buffer = .ok consumed)
    (hbound : boundPendingLine max consumed.pending consumed.buffer = .ok ()) :
    buffer.eventBytes + (Utf8.encode line).length ≤ max := by
  have hlonger {w : List Char} (hle : buffer.eventBytes + (Utf8.encode (line ++ w)).length ≤ max) :
      buffer.eventBytes + (Utf8.encode line).length ≤ max := by
    rw [Utf8.encode_append, List.length_append] at hle
    omega
  have hopen {w : List Char} (hw : held (line ++ w) = line ++ held w)
      (hconsumed : consumed = { pending := line ++ w, buffer := buffer, events := [] }) :
      buffer.eventBytes + (Utf8.encode line).length ≤ max := by
    rw [hconsumed, boundPendingLine_eq, hw] at hbound
    by_contra hlarge
    rw [if_pos] at hbound
    · cases hbound
    · exact not_le.mp fun hle => hlarge (hlonger hle)
  have htaken {w : List Char} {next : List Char → EventBuffer → Except StreamProtocolError Consumed}
      (hok : continueWith (takeLine max (line ++ w) buffer) next = .ok consumed) :
      buffer.eventBytes + (Utf8.encode line).length ≤ max := by
    obtain ⟨taken, rest, htake, -, -⟩ := continueWith_eq_ok hok
    exact hlonger (takeLine_eq_ok htake).1
  rw [consumeLines_plain (plain_iff.mp hline), List.nil_append] at h
  obtain hplain | ⟨w, rest, hw, rfl⟩ | ⟨w, rest, hw, rfl⟩ := Lines.cut '\r' '\n' more
  · have hread := @consumeLines_plain max false line more buffer (plain_iff.mp hplain) []
    rw [List.append_nil, consumeLines] at hread
    rw [hread] at h
    refine hopen ?_ (Except.ok.inj h).symm
    by_cases hnil : more = []
    · rw [hnil, List.append_nil, (held_plain hline).1]
      exact (List.append_nil _).symm
    · exact held_append hnil line
  · rw [consumeLines_plain (plain_iff.mp hw), consumeLines_feed] at h
    exact htaken h
  · rw [consumeLines_plain (plain_iff.mp hw)] at h
    cases rest with
    | nil =>
      rw [consumeLines_return_nil] at h
      refine @hopen (w ++ ['\r']) (held_append (by simp) line) ?_
      rw [← List.append_assoc]
      exact (Except.ok.inj h).symm
    | cons d rest =>
      rw [consumeLines_return] at h
      exact htaken h

/-- What was accepted stays accepted, and its events stay. -/
theorem fits_of_append {a b : List Char} (h : Fits max (a ++ b)) : Fits max a := by
  obtain ⟨consumed, hconsume, hbound⟩ := fits_iff.mp h
  rw [consumeLines_append plain_nil] at hconsume
  obtain ⟨first, rest, hfirst, hrest, rfl⟩ := continueWith_eq_ok hconsume
  refine fits_iff.mpr ⟨first, hfirst, ?_⟩
  have hplain : Lines.Plain '\r' '\n' (held first.pending) := by
    rw [consumeLines_split] at hfirst
    cases htake : takeLines max (textLines (held a)).1 .empty with
    | error e =>
      rw [htake] at hfirst
      cases hfirst
    | ok taken =>
      rw [htake] at hfirst
      cases hfirst
      dsimp only
      rw [held_pending]
      exact textLines_plain _
  rw [← held_returned first.pending, List.append_assoc] at hrest
  have hle := bound_of_accept hplain hrest hbound
  rw [boundPendingLine_eq]
  exact if_neg (not_lt.mpr hle)

/-- More text after an accepted one. -/
theorem accept_more {a : List Char} (h : Fits max a) (b : List Char) :
    if Fits max (a ++ b) then
      ∃ more, consumeLines max false [] ((stateAfter a).pending ++ b) (stateAfter a).buffer =
          .ok { stateAfter (a ++ b) with events := more } ∧
        boundPendingLine max (stateAfter (a ++ b)).pending (stateAfter (a ++ b)).buffer = .ok () ∧
        eventsIn (a ++ b) = eventsIn a ++ more
    else ∀ consumed,
      consumeLines max false [] ((stateAfter a).pending ++ b) (stateAfter a).buffer =
          .ok consumed →
        ∃ e, boundPendingLine max consumed.pending consumed.buffer = .error e := by
  have happend : consumeLines max false [] (a ++ b) .empty =
      (consumeLines max false [] ((stateAfter a).pending ++ b) (stateAfter a).buffer).map
        (stateAfter a).after := by
    rw [consumeLines_append plain_nil, consumeLines_of_fits h, continueWith_ok]
  by_cases hfits : Fits max (a ++ b)
  · rw [if_pos hfits]
    obtain ⟨consumed, hconsume, hbound⟩ := fits_iff.mp hfits
    rw [consumeLines_of_fits hfits] at hconsume happend
    cases hconsume
    cases hmore : consumeLines max false [] ((stateAfter a).pending ++ b) (stateAfter a).buffer with
    | error e =>
      rw [hmore] at happend
      cases happend
    | ok more =>
      rw [hmore] at happend
      have hstate : stateAfter (a ++ b) = (stateAfter a).after more := Except.ok.inj happend
      refine ⟨more.events, ?_, hbound, congrArg Consumed.events hstate⟩
      rw [hstate]
      rfl
  · rw [if_neg hfits]
    intro consumed hconsumed
    rw [hconsumed] at happend
    cases hbound : boundPendingLine max consumed.pending consumed.buffer with
    | error e => exact ⟨e, rfl⟩
    | ok _ => exact absurd (fits_iff.mpr ⟨(stateAfter a).after consumed, happend, hbound⟩) hfits

/-! ## The end of a text -/

theorem lineBlocks_concat (lines block : List (List Char)) (line : List Char) :
    lineBlocks block (lines ++ [line]) =
      if line = [] then
        ((lineBlocks block lines).1 ++ [(lineBlocks block lines).2 ++ [line]], [])
      else ((lineBlocks block lines).1, (lineBlocks block lines).2 ++ [line]) := by
  unfold lineBlocks
  induction lines generalizing block with
  | nil => rfl
  | cons first lines ih =>
    rw [List.cons_append, Lines.blocks, Lines.blocks]
    by_cases hfirst : first = []
    · rw [if_pos hfirst, if_pos hfirst, ih]
      split <;> rfl
    · rw [if_neg hfirst, if_neg hfirst, ih]

/-- Lines up to an empty one are a block. -/
theorem lineBlocks_block {lines block : List (List Char)} (hlines : ∀ line ∈ lines, line ≠ [])
    (more : List (List Char)) :
    lineBlocks block (lines ++ [] :: more) =
      ((block ++ lines ++ [[]]) :: (lineBlocks [] more).1, (lineBlocks [] more).2) := by
  unfold lineBlocks
  induction lines generalizing block with
  | nil =>
    rw [List.nil_append, Lines.blocks, if_pos rfl, List.append_nil]
  | cons line lines ih =>
    rw [List.forall_mem_cons] at hlines
    rw [List.cons_append, Lines.blocks, if_neg hlines.1, ih hlines.2, List.append_assoc block]
    rfl

/-- One more line and the event that it may end. -/
theorem lineEvents_concat (lines : List (List Char)) (line : List Char) :
    lineEvents (lines ++ [line]) =
      lineEvents lines ++
        if line = [] then (blockEvent (lineBlocks [] lines).2).toList else [] := by
  unfold lineEvents
  rw [lineBlocks_concat]
  by_cases hline : line = []
  · rw [if_pos hline, if_pos hline, hline, List.filterMap_append, List.filterMap_cons,
      blockEvent_concat_nil]
    cases blockEvent (lineBlocks [] lines).2 with
    | none => rfl
    | some event => rfl
  · rw [if_neg hline, if_neg hline, List.append_nil]

/-- A carriage return at the end ends the last line. -/
theorem textLines_return (text : List Char) :
    textLines (text ++ ['\r']) = ((textLines text).1 ++ [(textLines text).2], []) := by
  unfold textLines
  induction hlen : text.length using Nat.strongRecOn generalizing text with
  | ind n ih =>
  obtain hplain | ⟨line, rest, hline, rfl⟩ | ⟨line, rest, hline, rfl⟩ := Lines.cut '\r' '\n' text
  · rw [Lines.split_plain hplain, Lines.split_line_return hplain]
    rfl
  · rw [List.length_append, List.length_cons] at hlen
    rw [List.append_assoc, List.cons_append, Lines.split_line_feed (by decide) hline,
      Lines.split_line_feed (by decide) hline, ih _ (by omega) rest rfl]
    rfl
  · have hskipped := Lines.skip_length '\n' rest
    rw [List.length_append, List.length_cons] at hlen
    rw [List.append_assoc, List.cons_append, Lines.split_line_return hline,
      Lines.split_line_return hline]
    by_cases hrest : rest = []
    · subst hrest
      rfl
    · rw [Lines.skip_append hrest, ih _ (by omega) _ rfl]
      rfl

/-- At the end of the response the carriage return that was held back ends its
line. -/
theorem consumeLines_final (h : Fits max text) :
    ∃ consumed, consumeLines max true [] (stateAfter text).pending (stateAfter text).buffer =
        .ok consumed ∧
      eventsIn text ++ consumed.events = lineEvents (textLines text).1 := by
  have hplain := textLines_plain (held text)
  have hread := @consumeLines_plain max true [] (textLines (held text)).2 (stateAfter text).buffer
    (plain_iff.mp hplain) (returned text)
  show ∃ consumed, consumeLines max true [] ((textLines (held text)).2 ++ returned text) _ = _ ∧ _
  rw [hread, List.nil_append]
  by_cases hlast : text.getLast? = some '\r'
  · have hreturned : returned text = ['\r'] := if_pos hlast
    have htext := textLines_return (held text)
    rw [← hreturned, held_returned] at htext
    have hline : consumeLines max true (textLines (held text)).2 (returned text)
        (stateAfter text).buffer =
        takeLine max (textLines (held text)).2 (stateAfter text).buffer := by
      rw [hreturned, consumeLines, if_neg (by decide)]
    have hfit := h.2
    rw [hline, htext]
    dsimp only
    rw [lineEvents_concat]
    by_cases hnil : (textLines (held text)).2 = []
    · rw [hnil, blockBytes_append] at hfit
      rw [hnil, if_pos rfl]
      exact ⟨_, takeLine_nil (by omega), rfl⟩
    · rw [if_neg hnil]
      refine ⟨_, (takeLine_bufferOf hnil _).trans (if_pos hfit), rfl⟩
  · have hreturned : returned text = [] := if_neg hlast
    have hheld : held text = text := if_neg hlast
    rw [hreturned, consumeLines]
    refine ⟨_, rfl, ?_⟩
    rw [List.append_nil, eventsIn, hheld]

end Streamweld.Client
