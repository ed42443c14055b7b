import Claxedo.Tasks.Contracts
import Claxedo.Lib.JsText
import Claxedo.Lib.Pages

/-! The lists of the Tasks kit: newest first with the id as tie-breaker, a page at a time. `paginate` sorts, seeks
and slices the rows in memory, comparing ids by their UTF-16 units; the SQL adapters select the rows after the
cursor, comparing ids by their bytes, and read one row to spare. -/

namespace Claxedo.Tasks

open Claxedo.Lib.NumberText Claxedo.Lib.Pages

namespace Bounds

def cursorMaxBytes : ℕ := 512
def listLimitDefault : ℤ := 50
def listLimitMax : ℤ := 100

end Bounds

structure PageKey where
  createdAt : ℤ
  id : String
  deriving DecidableEq

/-- A row, or what a list shows of it: its key and the rest. -/
structure Listed (T : Type) extends PageKey where
  rest : T

def Listed.map {T U : Type} (item : T → U) (row : Listed T) : Listed U := { row with rest := item row.rest }

/-- `limit` is none where the number asked for is no safe integer. -/
structure ListQuery where
  cursor : Option String
  limit : Option ℤ

def encodePageCursor (key : PageKey) : String := String.ofList (integerText key.createdAt) ++ ":" ++ key.id

/-- None for a value this module did not write, which pages from the start rather than refusing. -/
def decodePageCursor (value : String) : Option PageKey :=
  if Bounds.cursorMaxBytes < value.utf8ByteSize then none
  else
    match value.toList.findIdx? (· = ':') with
    | none | some 0 => none
    | some separator =>
      let id := String.ofList (value.toList.drop (separator + 1))
      match safeIntegerOf (value.toList.take separator) with
      | none => none
      | some createdAt => if id = "" then none else some ⟨createdAt, id⟩

def utf16Units (c : Char) : List ℕ :=
  if 0xffff < c.toNat then [0xd800 + (c.toNat - 0x10000) / 0x400, 0xdc00 + (c.toNat - 0x10000) % 0x400] else [c.toNat]

/-- What `<` compares of two strings. -/
def codeUnits (text : String) : List ℕ := text.toList.flatMap utf16Units

/-- What the binary collation compares of two texts. -/
def bytes (text : String) : List ℕ := text.toList.flatMap fun c => (String.utf8EncodeChar c).map (·.toNat)

/-- Negative when `left` sorts earlier in a page than `right`. -/
def comparePageKeys (left right : PageKey) : ℤ :=
  if left.createdAt ≠ right.createdAt then right.createdAt - left.createdAt
  else if left.id = right.id then 0
  else if codeUnits left.id < codeUnits right.id then 1
  else -1

def isAfterCursor (key cursor : PageKey) : Bool := 0 < comparePageKeys key cursor

def clampLimit (limit : Option ℤ) : ℕ :=
  match limit with
  | none => Bounds.listLimitDefault.toNat
  | some limit => if limit < 1 then Bounds.listLimitDefault.toNat else (min limit Bounds.listLimitMax).toNat

/-- Orders, seeks and slices an already-authorized row set. -/
def paginate {T : Type} (rows : List (Listed T)) (query : ListQuery) : Page String (Listed T) :=
  let limit := clampLimit query.limit
  let cursor := query.cursor.bind decodePageCursor
  let ordered := rows.insertionSort fun left right => comparePageKeys left.toPageKey right.toPageKey ≤ 0
  let seeked :=
    match cursor with
    | some cursor => ordered.filter fun row : Listed T => isAfterCursor row.toPageKey cursor
    | none => ordered
  let items := seeked.take limit
  { items
    nextCursor :=
      match items.getLast? with
      | some last => if items.length < seeked.length then some (encodePageCursor last.toPageKey) else none
      | none => none }

structure TasksPageBounds where
  limit : ℕ
  cursor : Option PageKey

def tasksPageBounds (query : ListQuery) : TasksPageBounds :=
  { limit := clampLimit query.limit, cursor := query.cursor.bind decodePageCursor }

/-- `rows` must have been read with `limit + 1`: the extra row is what says another page exists. -/
def tasksPage {Row Item : Type} (rows : List (Listed Row)) (limit : ℕ) (item : Listed Row → Listed Item) :
    Page String (Listed Item) :=
  let items := (rows.take limit).map item
  { items
    nextCursor :=
      match items.getLast? with
      | some last => if limit < rows.length then some (encodePageCursor last.toPageKey) else none
      | none => none }

/-- ` and (created_at < ? or (created_at = ? and id < ?))`, the three holes filled from the cursor. -/
def windowClause {T : Type} (query : ListQuery) (row : Listed T) : Bool :=
  match (tasksPageBounds query).cursor with
  | none => true
  | some cursor =>
    row.createdAt < cursor.createdAt ∨ row.createdAt = cursor.createdAt ∧ bytes row.id < bytes cursor.id

/-- `order by created_at desc, id desc`. -/
def newestFirst {T : Type} (left right : Listed T) : Prop :=
  right.createdAt < left.createdAt ∨ left.createdAt = right.createdAt ∧ bytes right.id ≤ bytes left.id

instance {T : Type} : DecidableRel (newestFirst (T := T)) := fun _ _ => inferInstanceAs (Decidable (_ ∨ _))

/-- A list read of the SQL adapters: the rows the filter and the clause keep, in order, one more than asked for. -/
def listRows {Row Item : Type} (rows : List (Listed Row)) (matching : Listed Row → Bool) (item : Row → Item)
    (query : ListQuery) : Page String (Listed Item) :=
  let limit := (tasksPageBounds query).limit
  let selected := rows.filter fun row => matching row && windowClause query row
  tasksPage ((selected.insertionSort newestFirst).take (limit + 1)) limit (Listed.map item)

/-! The pages of a list, followed from the first. On ids of ASCII the two comparisons of texts are one order, so
the page the SQL adapters read is the page `paginate` cuts, whatever the cursor; and each cursor a page hands on
is read back as the key of its last row, so the pages are the windows of the whole list. -/

def ascii (text : String) : Prop := ∀ c ∈ text.toList, c.toNat < 128

instance (text : String) : Decidable (ascii text) :=
  decidable_of_iff ((text.toList.all fun c => c.toNat < 128) = true) (by simp [ascii])

/-- A key the kit writes rows under. -/
structure WellKeyed (key : PageKey) : Prop where
  createdAt : isSafeInteger key.createdAt = true
  id : key.id ≠ ""
  ascii : ascii key.id
  bound : idWithinBound key.id = true

/-! The cursor text. -/

theorem utf8ByteSize_ofList {l : List Char} (h : ∀ c ∈ l, c.toNat < 128) : (String.ofList l).utf8ByteSize = l.length := by
  induction l with
  | nil => rfl
  | cons c l ih =>
    have hc : c.val ≤ 0x7f := by
      have hnat : c.val.toNat < 128 := h c List.mem_cons_self
      exact UInt32.le_iff_toNat_le.mpr (by change c.val.toNat ≤ 127; omega)
    have hsize : c.utf8Size = 1 := by simp [Char.utf8Size, hc]
    rw [String.ofList_cons, String.utf8ByteSize_append, String.utf8ByteSize_singleton, hsize,
      ih fun c' hc' => h c' (List.mem_cons_of_mem _ hc'), List.length_cons, Nat.add_comm]

theorem integerText_ascii {n : ℤ} {c : Char} (h : c ∈ integerText n) : c.toNat < 128 := by
  rcases mem_integerText h with rfl | hdigit
  · decide
  · have := digit_bounds hdigit
    omega

theorem integerText_ne_colon {n : ℤ} {c : Char} (h : c ∈ integerText n) : c ≠ ':' := by
  rintro rfl
  rcases mem_integerText h with heq | hdigit
  · exact absurd heq (by decide)
  · exact absurd hdigit (by decide)

theorem encodePageCursor_toList (key : PageKey) :
    (encodePageCursor key).toList = integerText key.createdAt ++ ':' :: key.id.toList := by
  simp [encodePageCursor]

theorem findIdx?_encodePageCursor (key : PageKey) :
    (encodePageCursor key).toList.findIdx? (· = ':') = some (integerText key.createdAt).length := by
  have hnone : (integerText key.createdAt).findIdx? (· = ':') = none := by
    rw [List.findIdx?_eq_none_iff]
    intro c hc
    simpa using integerText_ne_colon hc
  rw [encodePageCursor_toList, List.findIdx?_append, hnone]
  simp [List.findIdx?_cons]

theorem utf8ByteSize_encodePageCursor {key : PageKey} (h : WellKeyed key) :
    (encodePageCursor key).utf8ByteSize ≤ Bounds.cursorMaxBytes := by
  have hid : key.id.utf8ByteSize ≤ 256 := of_decide_eq_true h.bound
  have hnumber := length_integerText h.createdAt
  have hcolon : ":".utf8ByteSize = 1 := rfl
  rw [encodePageCursor, String.utf8ByteSize_append, String.utf8ByteSize_append,
    utf8ByteSize_ofList fun c hc => integerText_ascii hc, hcolon, Bounds.cursorMaxBytes]
  omega

/-- A cursor is read back as the key it was written from. -/
theorem decodePageCursor_encodePageCursor {key : PageKey} (h : WellKeyed key) :
    decodePageCursor (encodePageCursor key) = some key := by
  have hbound := utf8ByteSize_encodePageCursor h
  obtain ⟨n, hn⟩ : ∃ n, (integerText key.createdAt).length = n + 1 :=
    Nat.exists_eq_succ_of_ne_zero fun hzero => integerText_ne_nil _ (List.length_eq_zero_iff.mp hzero)
  have htake : (encodePageCursor key).toList.take (n + 1) = integerText key.createdAt := by
    rw [encodePageCursor_toList, ← hn, List.take_left]
  have hdrop : (encodePageCursor key).toList.drop (n + 1 + 1) = key.id.toList := by
    rw [encodePageCursor_toList, ← hn, List.drop_append]
    simp
  unfold decodePageCursor
  rw [if_neg (by omega), findIdx?_encodePageCursor, hn]
  simp only [htake, hdrop, safeIntegerOf_integerText h.createdAt, String.ofList_toList, if_neg h.id]

/-! The two orders of texts. -/

/-- An encoding that writes an ASCII character as itself and starts any other at 128 or more. -/
def Fronted (encode : Char → List ℕ) : Prop :=
  (∀ c : Char, c.toNat < 128 → encode c = [c.toNat]) ∧
    ∀ c : Char, 128 ≤ c.toNat → ∃ n ns, encode c = n :: ns ∧ 128 ≤ n

theorem fronted_utf16Units : Fronted utf16Units := by
  refine ⟨fun c hc => if_neg (by omega), fun c hc => ?_⟩
  unfold utf16Units
  split_ifs
  · exact ⟨_, _, rfl, by omega⟩
  · exact ⟨_, _, rfl, hc⟩

theorem fronted_bytes : Fronted fun c => (String.utf8EncodeChar c).map (·.toNat) := by
  refine ⟨fun c hc => ?_, fun c hc => ?_⟩
  · have hval : c.val.toNat < 128 := hc
    simp only [String.utf8EncodeChar]
    rw [if_pos (by omega), List.map_singleton, UInt8.toNat_ofNat', Nat.mod_eq_of_lt (by omega)]
    rfl
  · have hval : 128 ≤ c.val.toNat := hc
    simp only [String.utf8EncodeChar]
    rw [if_neg (by omega)]
    split_ifs
    all_goals refine ⟨_, _, List.map_cons, ?_⟩
    all_goals rw [UInt8.toNat_ofNat', Nat.mod_eq_of_lt (by omega)]; omega

theorem Fronted.flatMap_ascii {encode : Char → List ℕ} (h : Fronted encode) {l : List Char}
    (hl : ∀ c ∈ l, c.toNat < 128) : l.flatMap encode = l.map Char.toNat := by
  induction l with
  | nil => rfl
  | cons c l ih =>
    rw [List.flatMap_cons, h.1 c (hl c List.mem_cons_self), ih fun c' hc' => hl c' (List.mem_cons_of_mem _ hc'),
      List.map_cons, List.singleton_append]

/-- Against a text of ASCII every fronted encoding orders alike. -/
theorem Fronted.lt_iff {f g : Char → List ℕ} (hf : Fronted f) (hg : Fronted g) {a : List Char}
    (ha : ∀ c ∈ a, c.toNat < 128) (b : List Char) : a.flatMap f < b.flatMap f ↔ a.flatMap g < b.flatMap g := by
  have hne : ∀ {e : Char → List ℕ}, Fronted e → ∀ c, ∃ n ns, e c = n :: ns := by
    intro e he c
    by_cases hc : c.toNat < 128
    · exact ⟨_, _, he.1 c hc⟩
    · obtain ⟨n, ns, h, -⟩ := he.2 c (by omega)
      exact ⟨n, ns, h⟩
  induction a generalizing b with
  | nil =>
    cases b with
    | nil => simp
    | cons c b =>
      obtain ⟨n, ns, hn⟩ := hne hf c
      obtain ⟨m, ms, hm⟩ := hne hg c
      simp [hn, hm]
  | cons x a ih =>
    have hx := ha x List.mem_cons_self
    have ha' : ∀ c ∈ a, c.toNat < 128 := fun c hc => ha c (List.mem_cons_of_mem _ hc)
    cases b with
    | nil => simp
    | cons c b =>
      rw [List.flatMap_cons, List.flatMap_cons, List.flatMap_cons, List.flatMap_cons, hf.1 x hx, hg.1 x hx]
      by_cases hc : c.toNat < 128
      · rw [hf.1 c hc, hg.1 c hc]
        simp only [List.singleton_append, List.cons_lt_cons_iff, ih ha' b]
      · obtain ⟨n, ns, hn, hle⟩ := hf.2 c (by omega)
        obtain ⟨m, ms, hm, hle'⟩ := hg.2 c (by omega)
        rw [hn, hm]
        simp only [List.cons_append, List.cons_lt_cons_iff]
        exact iff_of_true (.inl (by omega)) (.inl (by omega))

theorem codeUnits_lt_iff {a : String} (ha : ascii a) (b : String) : codeUnits a < codeUnits b ↔ bytes a < bytes b :=
  fronted_utf16Units.lt_iff fronted_bytes ha b.toList

theorem codeUnits_injective {a b : String} (ha : ascii a) (hb : ascii b) (h : codeUnits a = codeUnits b) : a = b := by
  unfold codeUnits at h
  rw [fronted_utf16Units.flatMap_ascii ha, fronted_utf16Units.flatMap_ascii hb] at h
  exact String.toList_injective ((List.map_injective_iff.mpr fun _ _ => Char.toNat_inj.mp) h)

/-! The two orders of rows. -/

/-- A key by what orders it: the later, and of one time the higher text, is the newer. -/
def rank (encode : String → List ℕ) (key : PageKey) : ℤ ×ₗ List ℕ := toLex (key.createdAt, encode key.id)

theorem comparePageKeys_le_zero_iff (left right : PageKey) :
    comparePageKeys left right ≤ 0 ↔ rank codeUnits right ≤ rank codeUnits left := by
  unfold comparePageKeys rank
  rw [Prod.Lex.toLex_le_toLex]
  split_ifs with hne hid hlt
  · simp only [ne_eq] at hne
    constructor
    · intro h
      exact .inl (by omega)
    · rintro (h | ⟨h, -⟩) <;> omega
  · simp only [ne_eq, not_not] at hne
    simp [hne, hid]
  · simp only [ne_eq, not_not] at hne
    simp [hne, hlt]
  · simp only [ne_eq, not_not] at hne
    simp only [hne, lt_self_iff_false, false_or, true_and]
    exact iff_of_true (by decide) (not_lt.mp hlt)

theorem isAfterCursor_iff (key cursor : PageKey) :
    isAfterCursor key cursor = true ↔ rank codeUnits key < rank codeUnits cursor := by
  unfold isAfterCursor
  rw [decide_eq_true_eq, ← not_le, comparePageKeys_le_zero_iff, not_le]

theorem newestFirst_iff {T : Type} (left right : Listed T) :
    newestFirst left right ↔ rank bytes right.toPageKey ≤ rank bytes left.toPageKey := by
  unfold newestFirst rank
  rw [Prod.Lex.toLex_le_toLex, eq_comm]

theorem windowClause_iff {T : Type} {query : ListQuery} {cursor : PageKey}
    (h : (tasksPageBounds query).cursor = some cursor) (row : Listed T) :
    windowClause query row = true ↔ rank bytes row.toPageKey < rank bytes cursor := by
  unfold windowClause rank
  rw [h, Prod.Lex.toLex_lt_toLex, decide_eq_true_eq]

theorem rank_lt_iff {a b : PageKey} (ha : ascii a.id) : rank codeUnits a < rank codeUnits b ↔ rank bytes a < rank bytes b := by
  unfold rank
  rw [Prod.Lex.toLex_lt_toLex, Prod.Lex.toLex_lt_toLex, codeUnits_lt_iff ha]

theorem rank_injective {a b : PageKey} (ha : ascii a.id) (hb : ascii b.id) (h : rank codeUnits a = rank codeUnits b) : a = b := by
  obtain ⟨hcreated, hid⟩ := Prod.mk.inj (toLex.injective h)
  cases a
  cases b
  cases hcreated
  cases codeUnits_injective ha hb hid
  rfl

section
variable {T Row Item : Type}

theorem pairwise_comparePageKeys (rows : List (Listed T)) :
    (rows.insertionSort fun left right => comparePageKeys left.toPageKey right.toPageKey ≤ 0).Pairwise
      fun left right => rank codeUnits right.toPageKey ≤ rank codeUnits left.toPageKey := by
  have : Std.Total fun left right : Listed T => comparePageKeys left.toPageKey right.toPageKey ≤ 0 :=
    ⟨fun left right => by simpa only [comparePageKeys_le_zero_iff] using le_total _ _⟩
  have : IsTrans (Listed T) fun left right => comparePageKeys left.toPageKey right.toPageKey ≤ 0 :=
    ⟨fun a b c hab hbc => by
      rw [comparePageKeys_le_zero_iff] at hab hbc ⊢
      exact hbc.trans hab⟩
  refine (List.pairwise_insertionSort _ rows).imp fun h => ?_
  exact (comparePageKeys_le_zero_iff _ _).mp h

theorem pairwise_newestFirst (rows : List (Listed T)) :
    (rows.insertionSort newestFirst).Pairwise
      fun left right => rank bytes right.toPageKey ≤ rank bytes left.toPageKey := by
  have : Std.Total (newestFirst (T := T)) := ⟨fun left right => by simpa only [newestFirst_iff] using le_total _ _⟩
  have : IsTrans (Listed T) newestFirst :=
    ⟨fun a b c hab hbc => by
      rw [newestFirst_iff] at hab hbc ⊢
      exact hbc.trans hab⟩
  exact (List.pairwise_insertionSort _ rows).imp fun h => (newestFirst_iff _ _).mp h

theorem eq_of_newest_first {l₁ l₂ : List (Listed T)} (hperm : l₁.Perm l₂) (hkeys : (l₁.map (·.toPageKey)).Nodup)
    (hascii : ∀ row ∈ l₁, ascii row.id)
    (h₁ : l₁.Pairwise fun left right => rank codeUnits right.toPageKey ≤ rank codeUnits left.toPageKey)
    (h₂ : l₂.Pairwise fun left right => rank codeUnits right.toPageKey ≤ rank codeUnits left.toPageKey) : l₁ = l₂ := by
  refine List.Perm.eq_of_pairwise (fun a b ha hb hab hba => ?_) h₁ h₂ hperm
  have hb' : b ∈ l₁ := hperm.mem_iff.mpr hb
  exact List.inj_on_of_nodup_map hkeys ha hb' (rank_injective (hascii a ha) (hascii b hb') (le_antisymm hba hab))

theorem filter_isAfterCursor {passed rest : List (Listed T)} {item : Listed T}
    (hkeys : ((passed ++ item :: rest).map (·.toPageKey)).Nodup) (hascii : ∀ row ∈ passed ++ item :: rest, ascii row.id)
    (h : (passed ++ item :: rest).Pairwise
      fun left right => rank codeUnits right.toPageKey ≤ rank codeUnits left.toPageKey) :
    ((passed ++ item :: rest).filter fun row => isAfterCursor row.toPageKey item.toPageKey) = rest := by
  obtain ⟨-, hitem, hpassed⟩ := List.pairwise_append.mp h
  obtain ⟨hrest, -⟩ := List.pairwise_cons.mp hitem
  have hbefore : ∀ row ∈ passed, ¬ isAfterCursor row.toPageKey item.toPageKey = true := by
    intro row hrow
    rw [isAfterCursor_iff, not_lt]
    exact hpassed row hrow item List.mem_cons_self
  have hself : ¬ isAfterCursor item.toPageKey item.toPageKey = true := by
    rw [isAfterCursor_iff]
    exact lt_irrefl _
  have hafter : ∀ row ∈ rest, isAfterCursor row.toPageKey item.toPageKey = true := by
    intro row hrow
    rw [isAfterCursor_iff]
    refine lt_of_le_of_ne (hrest row hrow) fun heq => ?_
    have hkey : row.toPageKey = item.toPageKey := rank_injective (hascii row (by simp [hrow])) (hascii item (by simp)) heq
    rw [List.map_append, List.map_cons, List.nodup_append] at hkeys
    exact (List.nodup_cons.mp hkeys.2.1).1 (List.mem_map.mpr ⟨row, hrow, hkey⟩)
  rw [List.filter_append, List.filter_eq_nil_iff.mpr hbefore, List.nil_append, List.filter_cons, if_neg hself]
  exact List.filter_eq_self.mpr hafter

/-- What `paginate` cuts its page from. -/
def seeked (rows : List (Listed T)) (query : ListQuery) : List (Listed T) :=
  match query.cursor.bind decodePageCursor with
  | some cursor =>
    (rows.insertionSort fun left right => comparePageKeys left.toPageKey right.toPageKey ≤ 0).filter
      fun row => isAfterCursor row.toPageKey cursor
  | none => rows.insertionSort fun left right => comparePageKeys left.toPageKey right.toPageKey ≤ 0

theorem clampLimit_pos (limit : Option ℤ) : 0 < clampLimit limit := by
  unfold clampLimit Bounds.listLimitDefault Bounds.listLimitMax
  split
  · decide
  · split_ifs
    · decide
    · omega

theorem paginate_eq_window (rows : List (Listed T)) (query : ListQuery) :
    paginate rows query =
      window (fun row => encodePageCursor row.toPageKey) (clampLimit query.limit) (seeked rows query) := by
  have hpage : paginate rows query =
      { items := (seeked rows query).take (clampLimit query.limit)
        nextCursor :=
          match ((seeked rows query).take (clampLimit query.limit)).getLast? with
          | some last =>
            if ((seeked rows query).take (clampLimit query.limit)).length < (seeked rows query).length then
              some (encodePageCursor last.toPageKey)
            else none
          | none => none } := by
    unfold paginate seeked
    cases query.cursor.bind decodePageCursor <;> rfl
  have hmore : ((seeked rows query).take (clampLimit query.limit)).length < (seeked rows query).length ↔
      clampLimit query.limit < (seeked rows query).length := by
    rw [List.length_take]
    omega
  rw [hpage]
  refine congrArg (Page.mk _) ?_
  cases ((seeked rows query).take (clampLimit query.limit)).getLast? with
  | none => simp
  | some last => exact if_congr hmore rfl rfl

theorem tasksPage_eq_window (rows : List (Listed Row)) (limit : ℕ) (item : Listed Row → Listed Item) :
    tasksPage (rows.take (limit + 1)) limit item =
      window (fun row => encodePageCursor row.toPageKey) limit (rows.map item) := by
  have hmore : limit < (rows.take (limit + 1)).length ↔ limit < (rows.map item).length := by
    rw [List.length_take, List.length_map]
    omega
  unfold tasksPage window
  rw [List.take_take, Nat.min_eq_left (by omega), List.map_take]
  refine congrArg (Page.mk ((rows.map item).take limit)) ?_
  cases ((rows.map item).take limit).getLast? with
  | none => simp
  | some last => exact if_congr hmore rfl rfl

/-- What the SQL adapters select, as the list shows it, is what `paginate` cuts its page from. -/
theorem selected_eq_seeked {rows : List (Listed Row)} (hkeys : (rows.map (·.toPageKey)).Nodup)
    (hascii : ∀ row ∈ rows, ascii row.id) (matching : Listed Row → Bool) (item : Row → Item) (query : ListQuery) :
    ((rows.filter fun row => matching row && windowClause query row).insertionSort newestFirst).map (Listed.map item) =
      seeked ((rows.filter matching).map (Listed.map item)) query := by
  have hkey : ∀ l : List (Listed Row), (l.map (Listed.map item)).map (·.toPageKey) = l.map (·.toPageKey) := by
    intro l
    rw [List.map_map]
    rfl
  have hmem : ∀ row ∈ (rows.filter fun row => matching row && windowClause query row).insertionSort newestFirst,
      ascii row.id := by
    intro row hrow
    rw [List.mem_insertionSort] at hrow
    exact hascii row (List.mem_filter.mp hrow).1
  refine eq_of_newest_first ?_ ?_ ?_ ?_ ?_
  · -- Both hold the matching rows the clause keeps.
    refine ((List.perm_insertionSort _ _).map _).trans ?_
    unfold seeked
    cases hcursor : query.cursor.bind decodePageCursor with
    | none =>
      have hall : (rows.filter fun row => matching row && windowClause query row) = rows.filter matching :=
        List.filter_congr fun row _ => by simp [windowClause, tasksPageBounds, hcursor]
      rw [hall]
      exact (List.perm_insertionSort _ _).symm
    | some cursor =>
      have hclause : ∀ row ∈ rows, windowClause query row = isAfterCursor (Listed.map item row).toPageKey cursor := by
        intro row hrow
        rw [Bool.eq_iff_iff, windowClause_iff hcursor, isAfterCursor_iff]
        exact (rank_lt_iff (hascii row hrow)).symm
      have hfilter : (rows.filter fun row => matching row && windowClause query row) =
          (rows.filter matching).filter fun row => isAfterCursor (Listed.map item row).toPageKey cursor := by
        rw [List.filter_filter]
        exact List.filter_congr fun row hrow => by rw [hclause row hrow, Bool.and_comm]
      rw [hfilter]
      refine List.Perm.trans ?_ ((List.perm_insertionSort _ _).filter _).symm
      rw [List.filter_map]
      exact List.Perm.refl _
  · rw [hkey]
    refine ((List.perm_insertionSort _ _).map _).nodup_iff.mpr ?_
    exact hkeys.sublist (List.filter_sublist.map _)
  · intro row hrow
    obtain ⟨row', hrow', rfl⟩ := List.mem_map.mp hrow
    exact hmem row' hrow'
  · rw [List.pairwise_map]
    refine (pairwise_newestFirst _).imp_of_mem fun {left right} hleft _ h => ?_
    have hlt := rank_lt_iff (b := right.toPageKey) (hmem left hleft)
    exact not_lt.mp fun hnot => not_lt.mpr h (hlt.mp hnot)
  · unfold seeked
    cases query.cursor.bind decodePageCursor with
    | none => exact pairwise_comparePageKeys _
    | some cursor => exact (pairwise_comparePageKeys _).sublist List.filter_sublist

/-- Whatever the cursor, the SQL adapters read the page `paginate` cuts. -/
theorem listRows_eq_paginate {rows : List (Listed Row)} (hkeys : (rows.map (·.toPageKey)).Nodup)
    (hascii : ∀ row ∈ rows, ascii row.id) (matching : Listed Row → Bool) (item : Row → Item) (query : ListQuery) :
    listRows rows matching item query = paginate ((rows.filter matching).map (Listed.map item)) query := by
  rw [paginate_eq_window, ← selected_eq_seeked hkeys hascii]
  exact tasksPage_eq_window _ _ _

/-- A page under a cursor of the list is the window behind it. -/
theorem paginate_of_standsBefore {rows : List (Listed T)} (hkeys : (rows.map (·.toPageKey)).Nodup)
    (hrows : ∀ row ∈ rows, WellKeyed row.toPageKey) (limit : Option ℤ) {cursor : Option String} {rest : List (Listed T)}
    (h : StandsBefore (fun row => encodePageCursor row.toPageKey) (seeked rows ⟨none, limit⟩) cursor rest) :
    paginate rows ⟨cursor, limit⟩ = window (fun row => encodePageCursor row.toPageKey) (clampLimit limit) rest := by
  rw [paginate_eq_window]
  congr 1
  rcases h with ⟨rfl, rfl⟩ | ⟨passed, item, rfl, hlist⟩
  · rfl
  · have hsorted := pairwise_comparePageKeys rows
    have hperm := List.perm_insertionSort
      (fun left right : Listed T => comparePageKeys left.toPageKey right.toPageKey ≤ 0) rows
    change rows.insertionSort _ = _ at hlist
    rw [hlist] at hsorted hperm
    have hwell : ∀ row ∈ passed ++ item :: rest, WellKeyed row.toPageKey :=
      fun row hrow => hrows row (hperm.mem_iff.mp hrow)
    unfold seeked
    simp only [Option.bind_some, decodePageCursor_encodePageCursor (hwell item (by simp)), hlist]
    exact filter_isAfterCursor ((hperm.map _).nodup_iff.mpr hkeys) (fun row hrow => (hwell row hrow).ascii) hsorted

/-- Followed from the first, the pages come to an end and make up the matching rows, each once and newest first;
and the SQL adapters answer page by page and cursor by cursor as `paginate` does. -/
theorem pages_cover_list (rows : List (Listed Row)) (hkeys : (rows.map (·.toPageKey)).Nodup)
    (hrows : ∀ row ∈ rows, WellKeyed row.toPageKey) (matching : Listed Row → Bool) (item : Row → Item)
    (limit : Option ℤ) :
    ∃ pages,
      follow (fun cursor => paginate ((rows.filter matching).map (Listed.map item)) ⟨cursor, limit⟩)
        (rows.length + 1) none = some pages ∧
      follow (fun cursor => listRows rows matching item ⟨cursor, limit⟩) (rows.length + 1) none = some pages ∧
      (pages.flatMap (·.items)).Perm ((rows.filter matching).map (Listed.map item)) ∧
      (pages.flatMap (·.items)).Pairwise fun left right =>
        right.createdAt < left.createdAt ∨ left.createdAt = right.createdAt ∧ codeUnits right.id < codeUnits left.id := by
  have hkey : ((rows.filter matching).map (Listed.map item)).map (·.toPageKey) = (rows.filter matching).map (·.toPageKey) := by
    rw [List.map_map]
    rfl
  have hlistedKeys : (((rows.filter matching).map (Listed.map item)).map (·.toPageKey)).Nodup := by
    rw [hkey]
    exact hkeys.sublist (List.filter_sublist.map _)
  have hlisted : ∀ row ∈ (rows.filter matching).map (Listed.map item), WellKeyed row.toPageKey := by
    intro row hrow
    obtain ⟨row', hrow', rfl⟩ := List.mem_map.mp hrow
    exact hrows row' (List.mem_filter.mp hrow').1
  have hperm : (seeked ((rows.filter matching).map (Listed.map item)) ⟨none, limit⟩).Perm
      ((rows.filter matching).map (Listed.map item)) := List.perm_insertionSort _ _
  have hlength : (seeked ((rows.filter matching).map (Listed.map item)) ⟨none, limit⟩).length < rows.length + 1 := by
    have hle := List.length_filter_le matching rows
    rw [hperm.length_eq, List.length_map]
    omega
  obtain ⟨pages, hpages, hitems⟩ := follow_windows (clampLimit_pos limit)
    (fun cursor rest h => paginate_of_standsBefore hlistedKeys hlisted limit h) (rows.length + 1) hlength
    (.inl ⟨rfl, rfl⟩)
  have hsame : (fun cursor => listRows rows matching item ⟨cursor, limit⟩) =
      fun cursor => paginate ((rows.filter matching).map (Listed.map item)) ⟨cursor, limit⟩ :=
    funext fun cursor => listRows_eq_paginate hkeys (fun row hrow => (hrows row hrow).ascii) matching item _
  refine ⟨pages, hpages, by rw [hsame]; exact hpages, by rw [hitems]; exact hperm, ?_⟩
  have hstrict : (seeked ((rows.filter matching).map (Listed.map item)) ⟨none, limit⟩).Pairwise fun left right =>
      rank codeUnits right.toPageKey < rank codeUnits left.toPageKey := by
    have hnodup : ((seeked ((rows.filter matching).map (Listed.map item)) ⟨none, limit⟩).map (·.toPageKey)).Nodup :=
      (hperm.map _).nodup_iff.mpr hlistedKeys
    rw [List.Nodup, List.pairwise_map] at hnodup
    refine ((pairwise_comparePageKeys _).and hnodup).imp_of_mem fun {left right} hleft hright h => ?_
    exact lt_of_le_of_ne h.1 fun heq => h.2 (rank_injective (hlisted left (hperm.mem_iff.mp hleft)).ascii
      (hlisted right (hperm.mem_iff.mp hright)).ascii heq.symm)
  rw [hitems]
  refine hstrict.imp fun {left right} h => ?_
  have h' := Prod.Lex.toLex_lt_toLex.mp h
  exact h'.imp_right fun heq => ⟨heq.1.symm, heq.2⟩

end

/-- Three rows, two of one moment, read two a page. -/
theorem pages_cover_list_three : ∃ pages,
    follow (fun cursor => paginate (([⟨⟨7, "a:b"⟩, 0⟩, ⟨⟨-2, "c"⟩, 1⟩, ⟨⟨7, "b"⟩, 2⟩] : List (Listed ℕ)).map (Listed.map id))
      ⟨cursor, some 2⟩) 4 none = some pages ∧ (pages.flatMap (·.items)).length = 3 := by
  obtain ⟨pages, hpages, -, hperm, -⟩ := pages_cover_list
    ([⟨⟨7, "a:b"⟩, 0⟩, ⟨⟨-2, "c"⟩, 1⟩, ⟨⟨7, "b"⟩, 2⟩] : List (Listed ℕ)) (by decide) (fun row hrow => by
      simp only [List.mem_cons, List.not_mem_nil, or_false] at hrow
      rcases hrow with rfl | rfl | rfl <;>
        exact ⟨by decide +kernel, by decide +kernel, by decide +kernel, by decide +kernel⟩) (fun _ => true) id (some 2)
  exact ⟨pages, hpages, hperm.length_eq⟩

end Claxedo.Tasks
