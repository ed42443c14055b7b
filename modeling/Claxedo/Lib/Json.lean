import Claxedo.Lib.Table

/-! Values as a JSON column holds them. An object keeps its fields in the order they were first
set; a field that is undefined is not there. Numbers are the integers. -/

namespace Claxedo.Lib

inductive Json where
  | null
  | bool (b : Bool)
  | num (n : ℤ)
  | str (s : String)
  | arr (items : List Json)
  | obj (fields : List (String × Json))

abbrev Record := List (String × Json)

namespace Record

def field (r : Record) (k : String) : Option Json := (Table.get Prod.fst k r).map Prod.snd

def set (r : Record) (k : String) (v : Json) : Record := Table.put Prod.fst (k, v) r

@[simp] theorem field_set_self (r : Record) (k : String) (v : Json) : (r.set k v).field k = some v := by
  unfold field set
  rw [Table.get_put, if_pos rfl]
  rfl

theorem field_set_ne (r : Record) {k k' : String} (h : k ≠ k') (v : Json) : (r.set k v).field k' = r.field k' := by
  unfold field set
  rw [Table.get_put_ne h]

@[simp] theorem set_set (r : Record) (k : String) (v w : Json) : (r.set k v).set k w = r.set k w := by
  unfold set
  exact Table.put_put (a := (k, v)) (b := (k, w)) rfl r

end Record

def asString : Option Json → Option String
  | some (.str s) => some s
  | _ => none

def asNumber : Option Json → Option ℤ
  | some (.num n) => some n
  | _ => none

def asRecord : Option Json → Option Record
  | some (.obj fields) => some fields
  | _ => none

@[simp] theorem asString_str (s : String) : asString (some (.str s)) = some s := rfl

/-- `{ ...left, ...right }`. -/
def Record.spread (left right : Record) : Record := right.foldl (fun r pair => r.set pair.1 pair.2) left

def hexDigit (n : ℕ) : Char := if n < 10 then Char.ofNat (48 + n) else Char.ofNat (87 + n)

/-- A character inside the quotes of a JSON text. -/
def escapedChar (c : Char) : List Char :=
  if c = '"' then ['\\', '"']
  else if c = '\\' then ['\\', '\\']
  else if c.toNat = 8 then ['\\', 'b']
  else if c.toNat = 12 then ['\\', 'f']
  else if c = '\n' then ['\\', 'n']
  else if c = '\r' then ['\\', 'r']
  else if c = '\t' then ['\\', 't']
  else if c.toNat < 32 then ['\\', 'u', '0', '0', hexDigit (c.toNat / 16), hexDigit (c.toNat % 16)]
  else [c]

def quoted (s : String) : String := String.ofList ('"' :: s.toList.flatMap escapedChar ++ ['"'])

mutual

/-- `JSON.stringify`. -/
def Json.stringify : Json → String
  | .null => "null"
  | .bool b => if b then "true" else "false"
  | .num n => toString n
  | .str s => quoted s
  | .arr items => "[" ++ ",".intercalate (stringifyItems items) ++ "]"
  | .obj fields => "\x7b" ++ ",".intercalate (stringifyFields fields) ++ "\x7d"

def stringifyItems : List Json → List String
  | [] => []
  | item :: items => item.stringify :: stringifyItems items

def stringifyFields : List (String × Json) → List String
  | [] => []
  | (key, value) :: fields => (quoted key ++ ":" ++ value.stringify) :: stringifyFields fields

end

end Claxedo.Lib
