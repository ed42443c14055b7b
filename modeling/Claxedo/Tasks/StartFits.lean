import Claxedo.Lib.JsText
import Claxedo.Tasks.Contracts
import Mathlib.Data.List.GetD

/-! The instruction block a session is started with: the preset's instructions, the group of its configurations, and the
transcript of the session before, cut to one cap. -/

namespace Claxedo.Tasks

open Claxedo.Lib Claxedo.Lib.JsText

inductive HarnessAccess where
  | native | connection

def HarnessAccess.name : HarnessAccess → String
  | .native => "native"
  | .connection => "connection"

/-- A model configuration with the texts it is described by. -/
structure StartConfiguration where
  harnessId : Text
  access : HarnessAccess
  providerID : Text
  modelID : Text
  effort : Option Text

/-- What a start reads of a preset. -/
structure StartPreset where
  id : Text
  instructions : Text
  placement : PresetPlacement
  configurations : ConfigurationSlot → Option StartConfiguration

structure StartInstructionsInput where
  preset : StartPreset
  slot : ConfigurationSlot
  handoffTranscript : Option JsString

structure StartInstructions where
  text : Text
  configuration : StartConfiguration
  instructionsBytesDropped : ℕ
  transcriptBytesDropped : ℕ

structure StartRefusal where
  code : TasksErrorCode
  message : Text
  fields : List InvalidField

def instructionsMaxBytes : ℕ := 64 * 1024

/-- Room for one truncation marker, subtracted once per section that can be cut. -/
def MARKER_RESERVE : ℕ := 120

def CONFIGURATION_SLOTS : List ConfigurationSlot := [.primary, .planning, .implementation, .review]

def configurationEntries (preset : StartPreset) : List (ConfigurationSlot × StartConfiguration) :=
  CONFIGURATION_SLOTS.filterMap fun slot => (preset.configurations slot).map fun configuration => (slot, configuration)

def describeEffort : Option Text → Text
  | none => ofString "effort: not set"
  | some effort => ofString "effort: " ++ effort

def describeConfiguration (configuration : StartConfiguration) : Text :=
  configuration.harnessId ++ ofString " (" ++ ofString configuration.access.name ++ ofString "), " ++
    configuration.providerID ++ ofString "/" ++ configuration.modelID ++ ofString ", " ++
    describeEffort configuration.effort

def describePlacement : PresetPlacement → Text
  | .local => ofString "local — this session uses the host's own skills and plugins"
  | .cloud => ofString "cloud — this session uses an isolated workspace with the preset's selected capabilities"

def describeEntry (slot : ConfigurationSlot) (entry : ConfigurationSlot × StartConfiguration) : Text :=
  ofString "- " ++ ofString entry.1.name ++ ofString (if entry.1 = slot then " (running now)" else "") ++ ofString ": " ++
    describeConfiguration entry.2

def describeGroup (preset : StartPreset) (slot : ConfigurationSlot) (configuration : StartConfiguration) : Text :=
  join (ofString "\n")
    [ofString "## How this session is configured",
     ofString "Placement: " ++ describePlacement preset.placement,
     ofString "Running configuration: " ++ ofString slot.name ++ ofString " — " ++ describeConfiguration configuration,
     [],
     ofString "Configurations saved on this preset:",
     join (ofString "\n") ((configurationEntries preset).map (describeEntry slot)),
     [],
     ofString "Starting another configuration is the user's action, not this session's; nothing here switches models on its own."]

inductive Keep where
  | head | tail

structure Truncated where
  text : Text
  dropped : ℕ
  deriving DecidableEq

/-- Back to where no byte inside a sequence stands. -/
def backUp (bytes : List ℕ) : ℕ → ℕ
  | 0 => 0
  | k + 1 => if isContinuation (bytes.getD (k + 1) 0) then backUp bytes k else k + 1

/-- On to where no byte inside a sequence stands. -/
def stepOn (bytes : List ℕ) (start : ℕ) : ℕ := start + ((bytes.drop start).takeWhile isContinuation).length

def truncateUtf8 (value : Text) (maxBytes : ℤ) (keep : Keep) : Truncated :=
  let bytes := encode value
  if (bytes.length : ℤ) ≤ maxBytes then ⟨value, 0⟩
  else if maxBytes ≤ 0 then ⟨[], bytes.length⟩
  else
    match keep with
    | .head =>
      let stop := backUp bytes maxBytes.toNat
      ⟨decode (bytes.take stop), bytes.length - stop⟩
    | .tail =>
      let start := stepOn bytes (bytes.length - maxBytes.toNat)
      ⟨decode (bytes.drop start), start⟩

def heading : Text := ofString "## The previous session for this slot"

def numberText (n : ℕ) : Text := ofString (toString n)

def instructionsMarker (dropped : ℕ) : Text :=
  ofString "[preset instructions truncated: " ++ numberText dropped ++ ofString " bytes dropped]"

def transcriptMarker (dropped : ℕ) : Text := ofString "[earlier turns dropped: " ++ numberText dropped ++ ofString " bytes]"

def paragraphs (parts : List Text) : Text := join (ofString "\n\n") parts

namespace StartInstructionsInput

variable (input : StartInstructionsInput) (configuration : StartConfiguration)

def group : Text := describeGroup input.preset input.slot configuration

def transcript : Text := trim ((input.handoffTranscript.map JsString.text).getD [])

/-- What a transcript takes beside itself; it is claimed before the instructions are cut. -/
def transcriptOverhead : ℕ := if input.transcript = [] then 0 else utf8ByteLength heading + MARKER_RESERVE + 4

def written : Text := trim input.preset.instructions

def instructionsRoom : ℤ :=
  instructionsMaxBytes - utf8ByteLength (input.group configuration) - MARKER_RESERVE - input.transcriptOverhead

def instructions : Truncated := truncateUtf8 input.written (input.instructionsRoom configuration) .head

def head : Text :=
  let instructions := input.instructions configuration
  paragraphs ((if instructions.text = [] then [] else [instructions.text]) ++
    (if 0 < instructions.dropped then [instructionsMarker instructions.dropped] else []) ++ [input.group configuration])

def transcriptRoom : ℤ :=
  instructionsMaxBytes - (utf8ByteLength (input.head configuration) + utf8ByteLength heading + MARKER_RESERVE + 4 : ℕ)

def kept : Truncated := truncateUtf8 input.transcript (input.transcriptRoom configuration) .tail

def body : Text :=
  let kept := input.kept configuration
  paragraphs ((if 0 < kept.dropped then [transcriptMarker kept.dropped] else []) ++
    (if kept.text = [] then [] else [kept.text]))

def text : Text := paragraphs [input.head configuration, heading, input.body configuration]

end StartInstructionsInput

/-- The last check of a block. -/
def capped (block : StartInstructions) : Except StartRefusal StartInstructions :=
  if instructionsMaxBytes < utf8ByteLength block.text then
    .error ⟨.unsupported, ofString "The instruction block exceeded its cap after composition", []⟩
  else .ok block

/-- The block of a slot that is configured. -/
def blockFor (input : StartInstructionsInput) (configuration : StartConfiguration) : Except StartRefusal StartInstructions :=
  if instructionsMaxBytes < utf8ByteLength (input.group configuration) + MARKER_RESERVE then
    .error ⟨.unsupported, ofString "The resolved group does not fit an instruction block", []⟩
  else if input.transcript = [] then
    .ok ⟨input.head configuration, configuration, (input.instructions configuration).dropped, 0⟩
  else
    capped ⟨input.text configuration, configuration, (input.instructions configuration).dropped,
      (input.kept configuration).dropped⟩

def startInstructions (input : StartInstructionsInput) : Except StartRefusal StartInstructions :=
  match input.preset.configurations input.slot with
  | none =>
    .error ⟨.invalidInput, ofString "Preset " ++ input.preset.id ++ ofString (" has no " ++ input.slot.name ++ " configuration"),
      [⟨"slot", .unknownValue⟩]⟩
  | some configuration => blockFor input configuration

/-! Where a text is cut: at the last point that fits, from its start or from its end. -/

section
variable {bytes : List ℕ} {value kept rest : Text} {p : Point} {max a d : ℕ}

theorem backUp_add (hstart : isContinuation (bytes.getD a 0) = false)
    (hinside : ∀ i, i < d → isContinuation (bytes.getD (a + i + 1) 0) = true) : backUp bytes (a + d) = a := by
  induction d with
  | zero =>
    rcases a with _ | a
    · rfl
    · rw [Nat.add_zero, backUp, if_neg (by rw [hstart]; exact Bool.false_ne_true)]
  | succ d ih =>
    rw [← Nat.add_assoc, backUp, if_pos (hinside d (Nat.lt_succ_self d))]
    exact ih fun i hi => hinside i (hi.trans (Nat.lt_succ_self d))

/-- Bytes inside a point that stands behind `kept`. -/
theorem getD_encode (value : Text) (hvalue : value = kept ++ p :: rest) (i : ℕ) (hi : i < p.size) :
    isContinuation ((encode value).getD (utf8ByteLength kept + i) 0) = decide (0 < i) := by
  obtain ⟨first, inside, hpoint, hfirst, hinside⟩ := encodePoint_eq p
  have hlen : (encodePoint p).length = p.size := length_encodePoint p
  rw [hvalue, encode_append, encode_cons, List.getD_append_right _ _ _ _ (by rw [length_encode]; omega), length_encode,
    Nat.add_sub_cancel_left, List.getD_append _ _ _ _ (by omega), hpoint]
  rcases i with _ | i
  · exact hfirst
  · rw [hpoint, List.length_cons] at hlen
    have hlt : i < inside.length := by omega
    rw [List.getD_cons_succ, List.getD_eq_getElem _ _ hlt, decide_eq_true (Nat.succ_pos i)]
    exact hinside _ (List.getElem_mem hlt)

theorem take_encode (hvalue : value = kept ++ rest) : (encode value).take (utf8ByteLength kept) = encode kept := by
  rw [hvalue, encode_append, ← length_encode, List.take_left]

theorem drop_encode (hvalue : value = kept ++ rest) : (encode value).drop (utf8ByteLength kept) = encode rest := by
  rw [hvalue, encode_append, ← length_encode, List.drop_left]

theorem backUp_encode (hvalue : value = kept ++ p :: rest) (hle : utf8ByteLength kept ≤ max)
    (hlt : max < utf8ByteLength kept + p.size) : backUp (encode value) max = utf8ByteLength kept := by
  obtain ⟨d, rfl⟩ := Nat.exists_eq_add_of_le hle
  refine backUp_add ?_ fun i hi => ?_
  · simpa using getD_encode value hvalue 0 p.size_pos
  · have h := getD_encode value hvalue (i + 1) (by omega)
    rw [← Nat.add_assoc] at h
    rw [h]
    exact decide_eq_true (Nat.succ_pos i)

theorem stepOn_encode (hvalue : value = kept ++ p :: rest) {start : ℕ} (hlt : utf8ByteLength kept < start)
    (hle : start ≤ utf8ByteLength kept + p.size) : stepOn (encode value) start = utf8ByteLength kept + p.size := by
  obtain ⟨first, inside, hpoint, -, hinside⟩ := encodePoint_eq p
  have hlen : inside.length + 1 = p.size := by
    rw [← length_encodePoint p, hpoint, List.length_cons]
  obtain ⟨i, rfl⟩ := Nat.exists_eq_add_of_lt hlt
  have hdrop : (encode value).drop (utf8ByteLength kept + i + 1) = inside.drop i ++ encode rest := by
    rw [Nat.add_assoc, ← List.drop_drop, drop_encode hvalue, encode_cons, hpoint, List.cons_append, List.drop_succ_cons,
      List.drop_append_of_le_length (by omega)]
  have hrest : (encode rest).takeWhile isContinuation = [] := by
    rcases rest with _ | ⟨q, rest⟩
    · rfl
    · obtain ⟨first', inside', hpoint', hfirst', -⟩ := encodePoint_eq q
      rw [encode_cons, hpoint', List.cons_append, List.takeWhile_cons_of_neg (by rw [hfirst']; exact Bool.false_ne_true)]
  have hwhile : (inside.drop i ++ encode rest).takeWhile isContinuation = inside.drop i := by
    rw [List.takeWhile_append_of_pos fun byte hbyte => hinside byte (List.mem_of_mem_drop hbyte), hrest, List.append_nil]
  rw [stepOn, hdrop, hwhile, List.length_drop]
  omega

/-- A text that does not fit is cut behind the last point that does. -/
theorem truncateUtf8_head (hpos : 0 < max) (hlong : max < utf8ByteLength value) :
    truncateUtf8 value max .head = ⟨readBack (fit max value), utf8ByteLength value - utf8ByteLength (fit max value)⟩ := by
  obtain ⟨rest, hvalue, hle, hnext⟩ := fit_spec max value
  rcases rest with _ | ⟨p, rest⟩
  · rw [List.append_nil] at hvalue
    rw [← hvalue] at hle
    omega
  · have hstop := backUp_encode hvalue hle (hnext p rfl)
    unfold truncateUtf8
    dsimp only
    rw [length_encode, if_neg (by omega), if_neg (by omega), Int.toNat_natCast, hstop, take_encode hvalue, decode_encode]

/-- The longest end of a text that takes no more bytes than `max`. -/
def fitEnd (max : ℕ) (t : Text) : Text := (fit max t.reverse).reverse

theorem fitEnd_spec (max : ℕ) (t : Text) : ∃ rest, t = rest ++ fitEnd max t ∧ utf8ByteLength (fitEnd max t) ≤ max ∧
    ∀ p ∈ rest.getLast?, max < utf8ByteLength (fitEnd max t) + p.size := by
  obtain ⟨rest, hrest, hle, hnext⟩ := fit_spec max t.reverse
  refine ⟨rest.reverse, ?_, ?_, fun p hp => ?_⟩
  · rw [fitEnd, ← List.reverse_append, ← hrest, List.reverse_reverse]
  · rw [fitEnd, utf8ByteLength_reverse]
    exact hle
  · rw [List.getLast?_reverse] at hp
    rw [fitEnd, utf8ByteLength_reverse]
    exact hnext p hp

/-- A text that does not fit is cut in front of the first point from which the rest does. -/
theorem truncateUtf8_tail (hpos : 0 < max) (hlong : max < utf8ByteLength value) :
    truncateUtf8 value max .tail = ⟨readBack (fitEnd max value), utf8ByteLength value - utf8ByteLength (fitEnd max value)⟩ := by
  obtain ⟨earlier, hvalue, hle, hnext⟩ := fitEnd_spec max value
  rcases List.eq_nil_or_concat earlier with rfl | ⟨before, p, rfl⟩
  · rw [List.nil_append] at hvalue
    rw [← hvalue] at hle
    omega
  · have hlast := hnext p (by simp)
    have hbytes := congrArg utf8ByteLength hvalue
    rw [List.concat_eq_append] at hvalue hbytes
    rw [utf8ByteLength_append, utf8ByteLength_append, utf8ByteLength_cons, utf8ByteLength_nil, Nat.add_zero] at hbytes
    have hsplit : value = before ++ p :: fitEnd max value := by
      rw [List.append_assoc] at hvalue
      exact hvalue
    have hstart : stepOn (encode value) (utf8ByteLength value - max) = utf8ByteLength before + p.size :=
      stepOn_encode hsplit (by omega) (by omega)
    have hdrop : (encode value).drop (utf8ByteLength before + p.size) = encode (fitEnd max value) := by
      have h := drop_encode hvalue
      rwa [utf8ByteLength_append, utf8ByteLength_cons, utf8ByteLength_nil, Nat.add_zero] at h
    unfold truncateUtf8
    dsimp only
    rw [length_encode, if_neg (by omega), if_neg (by omega), Int.toNat_natCast, hstart, hdrop, decode_encode]
    congr 1
    omega

theorem truncateUtf8_whole {keep : Keep} (h : utf8ByteLength value ≤ max) : truncateUtf8 value max keep = ⟨value, 0⟩ := by
  unfold truncateUtf8
  dsimp only
  rw [length_encode, if_pos (by omega)]

end

/-! The instruction block fits its cap and accounts for every byte: for every preset that passed validation, exactly where
what is cut is read back as it stood. -/

/-! ### Lengths -/

theorem utf8ByteLength_join_le (separator : Text) (parts : List Text) :
    utf8ByteLength (join separator parts) ≤ (parts.map utf8ByteLength).sum + (parts.length - 1) * utf8ByteLength separator := by
  have hcons (a b : Text) (rest : List Text) :
      join separator (a :: b :: rest) = a ++ (separator ++ join separator (b :: rest)) := by
    simp [join, List.intercalate]
  induction parts with
  | nil => exact Nat.zero_le _
  | cons a rest ih =>
    rcases rest with _ | ⟨b, rest⟩
    · simp [join, List.intercalate]
    · rw [hcons, utf8ByteLength_append, utf8ByteLength_append]
      simp only [List.map_cons, List.sum_cons, List.length_cons, Nat.add_sub_cancel] at ih ⊢
      rw [Nat.succ_mul]
      omega

theorem utf8ByteLength_dropWhile_le (p : Point → Bool) (t : Text) : utf8ByteLength (t.dropWhile p) ≤ utf8ByteLength t := by
  obtain ⟨before, hbefore⟩ := List.dropWhile_suffix p (l := t)
  have h := congrArg utf8ByteLength hbefore
  rw [utf8ByteLength_append] at h
  omega

theorem utf8ByteLength_trim_le (t : Text) : utf8ByteLength (trim t) ≤ utf8ByteLength t := by
  rw [trim, utf8ByteLength_reverse]
  refine (utf8ByteLength_dropWhile_le _ _).trans ?_
  rw [utf8ByteLength_reverse]
  exact utf8ByteLength_dropWhile_le _ _

theorem utf8ByteLength_le_length (t : Text) : utf8ByteLength t ≤ 3 * length t := by
  induction t with
  | nil => rfl
  | cons p t ih =>
    have hp : p.size ≤ 3 * p.units := by
      cases p with
      | char c =>
        dsimp only [Point.size, Point.units]
        split_ifs <;> omega
      | lone low => exact (Nat.le_refl 3)
    have hlength : length (p :: t) = p.units + length t := by simp [length]
    rw [utf8ByteLength_cons, hlength]
    omega

theorem head_trim (t : Text) : (trim t).head? ≠ some mark := by
  intro h
  have hprefix : trim t <+: t.dropWhile Point.isSpace := by
    unfold trim
    have hsuffix := List.dropWhile_suffix Point.isSpace (l := (t.dropWhile Point.isSpace).reverse)
    rw [← List.reverse_prefix, List.reverse_reverse] at hsuffix
    exact hsuffix
  have hhead : (t.dropWhile Point.isSpace).head? = some mark := by
    obtain ⟨rest, hrest⟩ := hprefix
    rw [← hrest, List.head?_append, h]
    rfl
  have hnot := List.head?_dropWhile_not Point.isSpace t
  rw [hhead] at hnot
  exact absurd hnot (by decide)

theorem utf8ByteLength_ofString (s : String) (h : ∀ c ∈ s.toList, c.toNat < 0x80) :
    utf8ByteLength (ofString s) = s.toList.length := by
  unfold ofString utf8ByteLength
  generalize s.toList = cs at h ⊢
  induction cs with
  | nil => rfl
  | cons c cs ih =>
    obtain ⟨hc, hcs⟩ := List.forall_mem_cons.mp h
    have hsize : Point.size (.char c) = 1 := if_pos hc
    rw [List.map_cons, List.map_cons, List.sum_cons, ih hcs, hsize, List.length_cons]
    omega

theorem utf8ByteLength_numberText_le {n k : ℕ} (hk : 0 < k) (h : n < 10 ^ k) : utf8ByteLength (numberText n) ≤ k := by
  have hdigits : (toString n).toList = Nat.toDigits 10 n := by
    simp [toString, Nat.repr_eq_ofList_toDigits]
  rw [numberText, utf8ByteLength_ofString, hdigits]
  · exact (Nat.length_toDigits_le_iff (by decide) hk).mpr h
  · intro c hc
    rw [hdigits] at hc
    have hdigit := Nat.isDigit_of_mem_toDigits (by decide) (by decide) hc
    simp only [Char.isDigit, Bool.and_eq_true, decide_eq_true_eq] at hdigit
    have hle : c.toNat ≤ 57 := hdigit.2
    omega

/-! ### The group -/

/-- The bound every identifier of a configuration is held to. -/
structure ValidConfiguration (configuration : StartConfiguration) : Prop where
  harnessId : utf8ByteLength configuration.harnessId ≤ Bounds.idMaxBytes
  providerID : utf8ByteLength configuration.providerID ≤ Bounds.idMaxBytes
  modelID : utf8ByteLength configuration.modelID ≤ Bounds.idMaxBytes
  effort : ∀ effort, configuration.effort = some effort → utf8ByteLength effort ≤ Bounds.idMaxBytes

/-- A preset that passed validation, as far as its texts go. -/
structure ValidPreset (preset : StartPreset) : Prop where
  instructions : utf8ByteLength preset.instructions ≤ instructionsMaxBytes
  configurations : ∀ slot configuration, preset.configurations slot = some configuration → ValidConfiguration configuration

section
variable {preset : StartPreset} {slot : ConfigurationSlot} {configuration : StartConfiguration}

theorem ValidConfiguration.describe (h : ValidConfiguration configuration) :
    utf8ByteLength (describeConfiguration configuration) ≤ 1050 := by
  have hids : Bounds.idMaxBytes = 256 := rfl
  have hharness := h.harnessId
  have hprovider := h.providerID
  have hmodel := h.modelID
  have haccess : utf8ByteLength (ofString configuration.access.name) ≤ 10 := by cases configuration.access <;> decide
  have heffort : utf8ByteLength (describeEffort configuration.effort) ≤ 264 := by
    rcases hsome : configuration.effort with _ | effort
    · decide
    · have hle := h.effort effort hsome
      rw [describeEffort, utf8ByteLength_append, show utf8ByteLength (ofString "effort: ") = 8 by decide]
      omega
  unfold describeConfiguration
  simp only [utf8ByteLength_append]
  have h1 : utf8ByteLength (ofString " (") = 2 := by decide
  have h2 : utf8ByteLength (ofString "), ") = 3 := by decide
  have h3 : utf8ByteLength (ofString "/") = 1 := by decide
  have h4 : utf8ByteLength (ofString ", ") = 2 := by decide
  omega

theorem name_le (slot : ConfigurationSlot) : utf8ByteLength (ofString slot.name) ≤ 14 := by
  cases slot <;> decide

theorem ValidConfiguration.describeEntry (h : ValidConfiguration configuration) (running : ConfigurationSlot) :
    utf8ByteLength (describeEntry running (slot, configuration)) ≤ 1082 := by
  have hdescribe := h.describe
  have hname := name_le slot
  have hrunning : utf8ByteLength (ofString (if slot = running then " (running now)" else "")) ≤ 14 := by
    split_ifs <;> decide
  have h1 : utf8ByteLength (ofString "- ") = 2 := by decide
  have h2 : utf8ByteLength (ofString ": ") = 2 := by decide
  unfold Tasks.describeEntry
  simp only [utf8ByteLength_append]
  omega

theorem ValidPreset.entries (h : ValidPreset preset) (slot : ConfigurationSlot) :
    utf8ByteLength (join (ofString "\n") ((configurationEntries preset).map (describeEntry slot))) ≤ 4332 := by
  have hjoin := utf8ByteLength_join_le (ofString "\n") ((configurationEntries preset).map (describeEntry slot))
  have hline : utf8ByteLength (ofString "\n") = 1 := by decide
  have hfour : (configurationEntries preset).length ≤ 4 := List.length_filterMap_le _ _
  have hsum : (((configurationEntries preset).map (describeEntry slot)).map utf8ByteLength).sum ≤
      (configurationEntries preset).length * 1082 := by
    rw [List.map_map, ← List.length_map (utf8ByteLength ∘ describeEntry slot), ← smul_eq_mul]
    refine List.sum_le_card_nsmul _ _ fun bytes hbytes => ?_
    obtain ⟨⟨slot', configuration⟩, hentry, rfl⟩ := List.mem_map.mp hbytes
    obtain ⟨slot'', -, hsome⟩ := List.mem_filterMap.mp hentry
    obtain ⟨configuration', hconfiguration, heq⟩ := Option.map_eq_some_iff.mp hsome
    obtain ⟨rfl, rfl⟩ := Prod.mk.inj heq
    exact (h.configurations _ _ hconfiguration).describeEntry slot
  rw [hline, List.length_map] at hjoin
  omega

theorem ValidPreset.group (h : ValidPreset preset) (hslot : preset.configurations slot = some configuration) :
    utf8ByteLength (describeGroup preset slot configuration) ≤ 6000 := by
  have hplacement : utf8ByteLength (describePlacement preset.placement) ≤ 100 := by cases preset.placement <;> decide
  have hentries := h.entries slot
  have hdescribe := (h.configurations slot configuration hslot).describe
  have hname := name_le slot
  have h1 : utf8ByteLength (ofString "## How this session is configured") = 33 := by decide
  have h2 : utf8ByteLength (ofString "Placement: ") = 11 := by decide
  have h3 : utf8ByteLength (ofString "Running configuration: ") = 23 := by decide
  have h4 : utf8ByteLength (ofString " — ") = 5 := by decide
  have h5 : utf8ByteLength (ofString "Configurations saved on this preset:") = 36 := by decide
  have h6 : utf8ByteLength (ofString
    "Starting another configuration is the user's action, not this session's; nothing here switches models on its own.") ≤ 120 := by
    decide +kernel
  have h7 : utf8ByteLength (ofString "\n") = 1 := by decide
  unfold describeGroup
  refine (utf8ByteLength_join_le _ _).trans ?_
  simp only [List.map_cons, List.map_nil, List.sum_cons, List.sum_nil, List.length_cons, List.length_nil, utf8ByteLength_append,
    utf8ByteLength_nil]
  omega

end

end Claxedo.Tasks
