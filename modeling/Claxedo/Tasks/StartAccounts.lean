import Claxedo.Tasks.StartFits

/-! Every byte of the instruction block is accounted for exactly where what a cut keeps is read back as it stood. -/

namespace Claxedo.Tasks

open Claxedo.Lib Claxedo.Lib.JsText

/-- A block fits the cap; what it keeps of the instructions is a start of them, what it keeps of the transcript an end of
it, and either with the bytes reported as dropped makes the whole. -/
structure Accounts (input : StartInstructionsInput) (configuration : StartConfiguration) (block : StartInstructions) : Prop where
  fits : utf8ByteLength block.text ≤ instructionsMaxBytes
  instructions_start : (input.instructions configuration).text <+: input.written
  instructions_bytes : utf8ByteLength (input.instructions configuration).text + block.instructionsBytesDropped =
    utf8ByteLength input.written
  transcript_end : (input.kept configuration).text <:+ input.transcript
  transcript_bytes : utf8ByteLength (input.kept configuration).text + block.transcriptBytesDropped =
    utf8ByteLength input.transcript

/-- Instructions that are cut have no lone surrogate in front of the cut; a transcript that is cut has none behind it, and
no byte order mark there. -/
structure CutsPlain (input : StartInstructionsInput) (configuration : StartConfiguration) : Prop where
  instructions : input.instructionsRoom configuration < utf8ByteLength input.written →
    ∀ p ∈ fit (input.instructionsRoom configuration).toNat input.written, ∀ low, p ≠ .lone low
  transcript : input.transcriptRoom configuration < utf8ByteLength input.transcript →
    Plain (fitEnd (input.transcriptRoom configuration).toNat input.transcript)

section
variable {v : Text} {max : ℕ}

/-- What the cut of a text keeps of it, its size, and when it is a start of the text. -/
theorem truncateUtf8_head_spec (hpos : 0 < max) (hmark : v.head? ≠ some mark) :
    (utf8ByteLength v ≤ max ∧ truncateUtf8 v max .head = ⟨v, 0⟩ ∨
      max < utf8ByteLength v ∧ utf8ByteLength (truncateUtf8 v max .head).text ≤ max ∧
        (truncateUtf8 v max .head).dropped ≤ utf8ByteLength v) ∧
    utf8ByteLength (truncateUtf8 v max .head).text + (truncateUtf8 v max .head).dropped = utf8ByteLength v ∧
    ((truncateUtf8 v max .head).text <+: v ↔
      (max < utf8ByteLength v → ∀ p ∈ fit max v, ∀ low, p ≠ .lone low)) := by
  rcases Nat.lt_or_ge max (utf8ByteLength v) with hlong | hshort
  · obtain ⟨rest, hvalue, hle, -⟩ := fit_spec max v
    have hfit : (fit max v).head? ≠ some mark := by
      intro h
      refine hmark ?_
      rw [hvalue, List.head?_append, h]
      rfl
    have hread : readBack (fit max v) = ((fit max v).map Point.written).map Point.char := by
      rw [readBack, if_neg hfit]
    have hbytes := congrArg utf8ByteLength hvalue
    rw [utf8ByteLength_append] at hbytes
    rw [truncateUtf8_head hpos hlong, hread]
    dsimp only
    rw [utf8ByteLength_map_written]
    refine ⟨.inr ⟨hlong, hle, Nat.sub_le _ _⟩, by omega, ?_⟩
    have hprefix : fit max v <+: v := ⟨rest, hvalue.symm⟩
    rw [← map_written_iff]
    constructor
    · intro h _
      exact (List.prefix_of_prefix_length_le h hprefix (by simp)).eq_of_length (by simp)
    · intro h
      rw [h hlong]
      exact hprefix
  · rw [truncateUtf8_whole hshort]
    exact ⟨.inl ⟨hshort, rfl⟩, rfl, iff_of_true (List.prefix_refl _) fun h => absurd h (by omega)⟩

theorem truncateUtf8_tail_spec (hpos : 0 < max) :
    (utf8ByteLength v ≤ max ∧ truncateUtf8 v max .tail = ⟨v, 0⟩ ∨
      max < utf8ByteLength v ∧ utf8ByteLength (truncateUtf8 v max .tail).text ≤ max ∧
        (truncateUtf8 v max .tail).dropped ≤ utf8ByteLength v) ∧
    ((truncateUtf8 v max .tail).text <:+ v ∧
      utf8ByteLength (truncateUtf8 v max .tail).text + (truncateUtf8 v max .tail).dropped = utf8ByteLength v ↔
      (max < utf8ByteLength v → Plain (fitEnd max v))) := by
  rcases Nat.lt_or_ge max (utf8ByteLength v) with hlong | hshort
  · obtain ⟨earlier, hvalue, hle, -⟩ := fitEnd_spec max v
    have hbytes := congrArg utf8ByteLength hvalue
    rw [utf8ByteLength_append] at hbytes
    have hread := utf8ByteLength_readBack (fitEnd max v)
    rw [truncateUtf8_tail hpos hlong]
    dsimp only
    refine ⟨.inr ⟨hlong, by omega, Nat.sub_le _ _⟩, ?_⟩
    have hsuffix : fitEnd max v <:+ v := ⟨earlier, hvalue.symm⟩
    constructor
    · rintro ⟨hend, hsum⟩ -
      have hmark : (fitEnd max v).head? ≠ some mark := by
        intro h
        rw [if_pos h] at hread
        omega
      refine ⟨(map_written_iff _).mp ?_, hmark⟩
      rw [readBack, if_neg hmark] at hend
      exact (List.suffix_of_suffix_length_le hend hsuffix (by simp)).eq_of_length (by simp)
    · intro h
      rw [readBack_of_plain (h hlong)]
      exact ⟨hsuffix, by omega⟩
  · rw [truncateUtf8_whole hshort]
    exact ⟨.inl ⟨hshort, rfl⟩, iff_of_true ⟨List.suffix_refl _, rfl⟩ fun h => absurd h (by omega)⟩

end

/-! ### The block -/

theorem utf8ByteLength_paragraphs_le (parts : List Text) :
    utf8ByteLength (paragraphs parts) ≤ (parts.map utf8ByteLength).sum + (parts.length - 1) * 2 :=
  utf8ByteLength_join_le _ _

theorem three_paragraphs_le (a b c : Text) :
    utf8ByteLength (paragraphs [a, b, c]) ≤ utf8ByteLength a + utf8ByteLength b + utf8ByteLength c + 4 := by
  have h := utf8ByteLength_paragraphs_le [a, b, c]
  simp at h
  omega

theorem instructionsMarker_le {dropped : ℕ} (h : dropped ≤ instructionsMaxBytes) :
    utf8ByteLength (instructionsMarker dropped) ≤ 52 := by
  have hdigits : utf8ByteLength (numberText dropped) ≤ 5 :=
    utf8ByteLength_numberText_le (by decide) (h.trans_lt (by decide))
  have h1 : utf8ByteLength (ofString "[preset instructions truncated: ") = 32 := by decide
  have h2 : utf8ByteLength (ofString " bytes dropped]") = 15 := by decide
  simp only [instructionsMarker, utf8ByteLength_append]
  omega

theorem transcriptMarker_le {dropped : ℕ} (h : dropped ≤ 3 * maxLength) : utf8ByteLength (transcriptMarker dropped) ≤ 48 := by
  have hdigits : utf8ByteLength (numberText dropped) ≤ 17 :=
    utf8ByteLength_numberText_le (by decide) (h.trans_lt (by decide))
  have h1 : utf8ByteLength (ofString "[earlier turns dropped: ") = 24 := by decide
  have h2 : utf8ByteLength (ofString " bytes]") = 7 := by decide
  simp only [transcriptMarker, utf8ByteLength_append]
  omega

theorem utf8ByteLength_heading : utf8ByteLength heading = 37 := by decide

section
variable {input : StartInstructionsInput} {configuration : StartConfiguration}

theorem transcript_le (input : StartInstructionsInput) : utf8ByteLength input.transcript ≤ 3 * maxLength := by
  refine (utf8ByteLength_trim_le _).trans ((utf8ByteLength_le_length _).trans (Nat.mul_le_mul_left 3 ?_))
  rcases input.handoffTranscript with _ | transcript
  · exact Nat.zero_le _
  · exact transcript.bounded

theorem transcriptOverhead_le (input : StartInstructionsInput) : input.transcriptOverhead ≤ 161 := by
  unfold StartInstructionsInput.transcriptOverhead
  rw [utf8ByteLength_heading]
  split_ifs <;> decide

theorem transcriptBody_le {transcript : Text} {kept : Truncated} {room : ℕ} (hlong : utf8ByteLength transcript ≤ 3 * maxLength)
    (hcut : utf8ByteLength transcript ≤ room ∧ kept = ⟨transcript, 0⟩ ∨
      room < utf8ByteLength transcript ∧ utf8ByteLength kept.text ≤ room ∧ kept.dropped ≤ utf8ByteLength transcript) :
    utf8ByteLength (paragraphs ((if 0 < kept.dropped then [transcriptMarker kept.dropped] else []) ++
      (if kept.text = [] then [] else [kept.text]))) ≤ room + 50 := by
  refine (utf8ByteLength_paragraphs_le _).trans ?_
  rcases hcut with ⟨hshort, rfl⟩ | ⟨-, hle, hdropped⟩
  · rw [if_neg (Nat.lt_irrefl 0)]
    split_ifs
    · simp
    · simp
      omega
  · have hmarker := transcriptMarker_le (hdropped.trans hlong)
    clear hlong hdropped
    split_ifs <;> simp <;> omega

theorem kept_nil (h : input.transcript = []) : input.kept configuration = ⟨[], 0⟩ := by
  have hnone (room : ℤ) : truncateUtf8 [] room .tail = ⟨[], 0⟩ := by
    rcases le_or_gt 0 room with hroom | hroom
    · exact if_pos hroom
    · exact (if_neg (not_le.mpr hroom)).trans (if_pos hroom.le)
  rw [StartInstructionsInput.kept, h, hnone]

theorem capped_of_le {text : Text} (h : utf8ByteLength text ≤ instructionsMaxBytes) (configuration : StartConfiguration)
    (dropped dropped' : ℕ) : ∃ block, capped ⟨text, configuration, dropped, dropped'⟩ = .ok block ∧
      utf8ByteLength block.text ≤ instructionsMaxBytes ∧ block.instructionsBytesDropped = dropped ∧
      block.transcriptBytesDropped = dropped' :=
  ⟨⟨text, configuration, dropped, dropped'⟩, if_neg (not_lt.mpr h), h, rfl, rfl⟩

section
variable (h : ValidPreset input.preset) (hslot : input.preset.configurations input.slot = some configuration)
include h hslot

theorem instructionsRoom_eq :
    ∃ room : ℕ, input.instructionsRoom configuration = room ∧ 0 < room ∧
      room + utf8ByteLength (input.group configuration) + MARKER_RESERVE + input.transcriptOverhead = instructionsMaxBytes := by
  have hgroup : utf8ByteLength (input.group configuration) ≤ 6000 := h.group hslot
  have hoverhead := transcriptOverhead_le input
  have hcap : instructionsMaxBytes = 65536 := rfl
  have hreserve : MARKER_RESERVE = 120 := rfl
  refine ⟨instructionsMaxBytes - utf8ByteLength (input.group configuration) - MARKER_RESERVE - input.transcriptOverhead, ?_, ?_, ?_⟩
  · unfold StartInstructionsInput.instructionsRoom
    omega
  · omega
  · omega

theorem head_le :
    utf8ByteLength (input.head configuration) + input.transcriptOverhead + 60 ≤ instructionsMaxBytes := by
  obtain ⟨room, hroom, hpos, hsum⟩ := instructionsRoom_eq h hslot
  obtain ⟨hcut, -, -⟩ := truncateUtf8_head_spec (v := input.written) hpos (head_trim _)
  have hwritten : utf8ByteLength input.written ≤ instructionsMaxBytes := (utf8ByteLength_trim_le _).trans h.instructions
  have hreserve : MARKER_RESERVE = 120 := rfl
  have hcap : instructionsMaxBytes = 65536 := rfl
  have hinstructions : truncateUtf8 input.written room .head = input.instructions configuration := by
    rw [StartInstructionsInput.instructions, hroom]
  rw [hinstructions] at hcut
  have hparagraphs := utf8ByteLength_paragraphs_le
    ((if (input.instructions configuration).text = [] then [] else [(input.instructions configuration).text]) ++
      (if 0 < (input.instructions configuration).dropped then [instructionsMarker (input.instructions configuration).dropped]
        else []) ++ [input.group configuration])
  unfold StartInstructionsInput.head
  dsimp only
  rcases hcut with ⟨hshort, hwhole⟩ | ⟨-, hle, hdropped⟩
  · rw [hwhole] at hparagraphs ⊢
    dsimp only at hparagraphs ⊢
    rw [if_neg (Nat.lt_irrefl 0)] at hparagraphs ⊢
    split_ifs at hparagraphs ⊢ <;> simp at hparagraphs ⊢ <;> omega
  · have hmarker := instructionsMarker_le (hdropped.trans hwritten)
    split_ifs at hparagraphs ⊢ <;> simp at hparagraphs ⊢ <;> omega

theorem transcriptRoom_eq (htranscript : input.transcript ≠ []) : ∃ room : ℕ, input.transcriptRoom configuration = room ∧ 0 < room ∧
      room + utf8ByteLength (input.head configuration) + 161 = instructionsMaxBytes := by
  have hhead := head_le h hslot
  have hreserve : MARKER_RESERVE = 120 := rfl
  have hoverhead : input.transcriptOverhead = 161 := by
    rw [StartInstructionsInput.transcriptOverhead, if_neg htranscript, utf8ByteLength_heading, hreserve]
  have hroom : input.transcriptRoom configuration = instructionsMaxBytes - (utf8ByteLength (input.head configuration) + 161 : ℕ) := by
    rw [StartInstructionsInput.transcriptRoom, utf8ByteLength_heading, hreserve]
  refine ⟨instructionsMaxBytes - (utf8ByteLength (input.head configuration) + 161), ?_, ?_, ?_⟩
  · rw [hroom]
    omega
  · omega
  · omega

theorem body_le (htranscript : input.transcript ≠ []) :
    utf8ByteLength (input.text configuration) ≤ instructionsMaxBytes := by
  obtain ⟨room, hroom, hpos, hsum⟩ := transcriptRoom_eq h hslot htranscript
  have hbody : utf8ByteLength (input.body configuration) ≤ room + 50 := by
    obtain ⟨hcut, -⟩ := truncateUtf8_tail_spec (v := input.transcript) hpos
    have hkept : truncateUtf8 input.transcript room .tail = input.kept configuration := by
      rw [StartInstructionsInput.kept, hroom]
    rw [hkept] at hcut
    have hlong := transcript_le input
    clear hsum hroom hkept h hslot
    unfold StartInstructionsInput.body
    generalize input.kept configuration = kept at hcut ⊢
    generalize input.transcript = transcript at hcut hlong
    exact transcriptBody_le hlong hcut
  have hparagraphs := three_paragraphs_le (input.head configuration) heading (input.body configuration)
  rw [utf8ByteLength_heading, ← StartInstructionsInput.text] at hparagraphs
  omega

/-- The block is composed, and fits. -/
theorem startInstructions_eq :
    ∃ block, startInstructions input = .ok block ∧ utf8ByteLength block.text ≤ instructionsMaxBytes ∧
      block.instructionsBytesDropped = (input.instructions configuration).dropped ∧
      block.transcriptBytesDropped = (input.kept configuration).dropped := by
  have hgroup : utf8ByteLength (input.group configuration) ≤ 6000 := h.group hslot
  have hfits : ¬ instructionsMaxBytes < utf8ByteLength (input.group configuration) + MARKER_RESERVE := by
    have hcap : instructionsMaxBytes = 65536 := rfl
    have hreserve : MARKER_RESERVE = 120 := rfl
    omega
  have hfor : startInstructions input = blockFor input configuration := by
    unfold startInstructions
    split
    · rename_i hnone
      cases hslot.symm.trans hnone
    · rename_i configuration' hsome
      rw [Option.some.inj (hslot.symm.trans hsome)]
  rw [hfor, blockFor, if_neg hfits]
  by_cases htranscript : input.transcript = []
  · rw [if_pos htranscript, kept_nil htranscript]
    have hhead : utf8ByteLength (input.head configuration) ≤ instructionsMaxBytes := by
      have := head_le h hslot
      omega
    generalize (input.instructions configuration).dropped = dropped
    generalize input.head configuration = text at hhead ⊢
    exact ⟨_, rfl, hhead, rfl, rfl⟩
  · have hbody := body_le h hslot htranscript
    rw [if_neg htranscript]
    exact capped_of_le hbody _ _ _

/-- What a cut keeps is read back as it stood exactly where every byte is accounted for. -/
theorem accounts_iff {block : StartInstructions} (hfits : utf8ByteLength block.text ≤ instructionsMaxBytes)
    (hinstructionsDropped : block.instructionsBytesDropped = (input.instructions configuration).dropped)
    (htranscriptDropped : block.transcriptBytesDropped = (input.kept configuration).dropped) :
    Accounts input configuration block ↔ CutsPlain input configuration := by
  obtain ⟨room, hroom, hpos, -⟩ := instructionsRoom_eq h hslot
  obtain ⟨-, hbytes, hstart⟩ := truncateUtf8_head_spec (v := input.written) hpos (head_trim _)
  have hinstructions : truncateUtf8 input.written room .head = input.instructions configuration := by
    rw [StartInstructionsInput.instructions, hroom]
  rw [hinstructions] at hbytes hstart
  rw [← hinstructionsDropped] at hbytes
  have hhead : (input.instructionsRoom configuration < utf8ByteLength input.written →
      ∀ p ∈ fit (input.instructionsRoom configuration).toNat input.written, ∀ low, p ≠ .lone low) ↔
      (input.instructions configuration).text <+: input.written := by
    rw [hstart, hroom, Int.toNat_natCast, Nat.cast_lt]
  have htail : (input.transcriptRoom configuration < utf8ByteLength input.transcript →
      Plain (fitEnd (input.transcriptRoom configuration).toNat input.transcript)) ↔
      (input.kept configuration).text <:+ input.transcript ∧
        utf8ByteLength (input.kept configuration).text + block.transcriptBytesDropped = utf8ByteLength input.transcript := by
    rw [htranscriptDropped]
    by_cases htranscript : input.transcript = []
    · rw [kept_nil htranscript, htranscript]
      exact iff_of_true (fun _ => ⟨nofun, nofun⟩) ⟨List.nil_suffix, rfl⟩
    · obtain ⟨room', hroom', hpos', -⟩ := transcriptRoom_eq h hslot htranscript
      obtain ⟨-, hend⟩ := truncateUtf8_tail_spec (v := input.transcript) hpos'
      have hkept : truncateUtf8 input.transcript room' .tail = input.kept configuration := by
        rw [StartInstructionsInput.kept, hroom']
      rw [hkept] at hend
      rw [hend, hroom', Int.toNat_natCast, Nat.cast_lt]
  constructor
  · intro haccounts
    exact ⟨hhead.mpr haccounts.instructions_start, htail.mpr ⟨haccounts.transcript_end, haccounts.transcript_bytes⟩⟩
  · intro hcut
    obtain ⟨hend, hsum⟩ := htail.mp hcut.transcript
    exact ⟨hfits, hhead.mp hcut.instructions, hbytes, hend, hsum⟩

theorem composed :
    ∃ block, startInstructions input = .ok block ∧ (Accounts input configuration block ↔ CutsPlain input configuration) := by
  obtain ⟨block, hblock, hfits, hinstructions, htranscript⟩ := startInstructions_eq h hslot
  exact ⟨block, hblock, accounts_iff h hslot hfits hinstructions htranscript⟩

end

end

/-- A preset with one configuration. -/
def reader : StartPreset where
  id := ofString "preset-1"
  instructions := ofString "Read the tests before the code."
  placement := .local
  configurations
    | .primary => some ⟨ofString "claude", .native, ofString "anthropic", ofString "claude-sonnet", none⟩
    | _ => none

theorem valid_reader : ValidPreset reader := by
  refine ⟨by decide, fun slot configuration h => ?_⟩
  cases slot with
  | primary =>
    obtain rfl := Option.some.inj h
    exact ⟨by decide, by decide, by decide, nofun⟩
  | _ => cases h

def readerConfiguration : StartConfiguration :=
  ⟨ofString "claude", .native, ofString "anthropic", ofString "claude-sonnet", none⟩

/-- A start of it that goes on from a session with two turns. -/
def continued : StartInstructionsInput := ⟨reader, .primary, some ⟨ofString "first turn\nlast turn", by decide⟩⟩

theorem fit_append {t u : Text} {max : ℕ} (h : utf8ByteLength t ≤ max) :
    fit max (t ++ u) = t ++ fit (max - utf8ByteLength t) u := by
  induction t generalizing max with
  | nil => rfl
  | cons p t ih =>
    rw [utf8ByteLength_cons] at h
    rw [List.cons_append, fit, if_pos (by omega), ih (by omega), utf8ByteLength_cons, Nat.sub_sub, List.cons_append]

theorem utf8ByteLength_replicate (n : ℕ) : utf8ByteLength (List.replicate n (.char 'b')) = n := by
  induction n with
  | zero => rfl
  | succ n ih =>
    rw [List.replicate_succ, utf8ByteLength_cons, ih, Nat.add_comm]
    rfl

/-- A turn cut in front of a mark: `n` bytes of it stand behind. -/
def turns (n : ℕ) : Text := .char 'a' :: mark :: List.replicate n (.char 'b')

theorem size_mark : mark.size = 3 := rfl

theorem size_a : (Point.char 'a').size = 1 := rfl

theorem isSpace_a : ¬ Point.isSpace (.char 'a') = true := by decide

theorem isSpace_b : ¬ Point.isSpace (.char 'b') = true := by decide

theorem trim_turns (n : ℕ) : trim (turns (n + 1)) = turns (n + 1) := by
  have hreverse : (turns (n + 1)).reverse = .char 'b' :: (List.replicate n (.char 'b') ++ [mark, .char 'a']) := by
    rw [turns, List.reverse_cons, List.reverse_cons, List.reverse_replicate, List.replicate_succ]
    simp
  rw [trim, turns, List.dropWhile_cons_of_neg isSpace_a, ← turns, hreverse, List.dropWhile_cons_of_neg isSpace_b, ← hreverse,
    List.reverse_reverse]

theorem fitEnd_turns (n : ℕ) : fitEnd (n + 3) (turns n) = mark :: List.replicate n (.char 'b') := by
  have hreverse : (turns n).reverse = List.replicate n (.char 'b') ++ [mark, .char 'a'] := by
    rw [turns, List.reverse_cons, List.reverse_cons, List.reverse_replicate, List.append_assoc]
    rfl
  have hlength := utf8ByteLength_replicate n
  rw [fitEnd, hreverse, fit_append (by omega), hlength, Nat.add_sub_cancel_left]
  simp [fit, size_mark, size_a]

theorem length_turns (n : ℕ) : length (turns n) = n + 2 := by
  have hreplicate : length (List.replicate n (.char 'b')) = n := by
    rw [length, List.map_replicate, List.sum_replicate]
    simp [Point.units]
  rw [turns, length, List.map_cons, List.map_cons, List.sum_cons, List.sum_cons, ← length, hreplicate]
  simp [Point.units, mark]
  omega

theorem utf8ByteLength_turns (n : ℕ) : utf8ByteLength (turns n) = n + 4 := by
  rw [turns, utf8ByteLength_cons, utf8ByteLength_cons, utf8ByteLength_replicate]
  simp [Point.size, mark]
  omega

theorem transcriptRoom_congr {preset : StartPreset} {slot : ConfigurationSlot} {handoff handoff' : Option JsString}
    (configuration : StartConfiguration) (h : (StartInstructionsInput.mk preset slot handoff).transcript ≠ [])
    (h' : (StartInstructionsInput.mk preset slot handoff').transcript ≠ []) :
    (StartInstructionsInput.mk preset slot handoff).transcriptRoom configuration =
      (StartInstructionsInput.mk preset slot handoff').transcriptRoom configuration := by
  have hoverhead : (StartInstructionsInput.mk preset slot handoff).transcriptOverhead =
      (StartInstructionsInput.mk preset slot handoff').transcriptOverhead := by
    rw [StartInstructionsInput.transcriptOverhead, if_neg h, StartInstructionsInput.transcriptOverhead, if_neg h']
  have hroom : (StartInstructionsInput.mk preset slot handoff).instructionsRoom configuration =
      (StartInstructionsInput.mk preset slot handoff').instructionsRoom configuration := by
    rw [StartInstructionsInput.instructionsRoom, hoverhead]
    rfl
  have hinstructions : (StartInstructionsInput.mk preset slot handoff).instructions configuration =
      (StartInstructionsInput.mk preset slot handoff').instructions configuration := by
    rw [StartInstructionsInput.instructions, hroom]
    rfl
  have hhead : (StartInstructionsInput.mk preset slot handoff).head configuration =
      (StartInstructionsInput.mk preset slot handoff').head configuration := by
    rw [StartInstructionsInput.head, hinstructions]
    rfl
  rw [StartInstructionsInput.transcriptRoom, hhead]
  rfl

/-- A transcript of `n` bytes behind the mark, as long as a string may be. -/
def handed (n : ℕ) : JsString :=
  if h : n ≤ instructionsMaxBytes then
    ⟨turns n, by rw [length_turns]; exact (Nat.add_le_add_right h 2).trans (by decide)⟩
  else ⟨[], Nat.zero_le _⟩

theorem handed_text {n : ℕ} (h : n ≤ instructionsMaxBytes) : (handed n).text = turns n := by
  rw [handed, dif_pos h]

/-- As many bytes behind the mark as leave the mark first in what is kept. -/
def filled : ℕ := (continued.transcriptRoom readerConfiguration).toNat - 4

def marked : StartInstructionsInput := ⟨reader, .primary, some (handed (filled + 1))⟩

end Claxedo.Tasks
