import Mathlib.Tactic

/-! An object store with conditional writes. An upload gets the next version and an etag; a put lands where the object
that stands is the one its etag names, or where none stands and the put asks for that. A delete asks for nothing. -/

namespace Claxedo.Lib

variable {ε κ β : Type}

/-- How uploads get their etags: two that share one are the same upload or have the same contents. -/
structure Etags (ε β : Type) where
  tag : ℕ → β → ε
  strong : ∀ {n m b c}, tag n b = tag m c → n = m ∨ b = c

/-- An etag that is made of the contents. -/
def Etags.digest : Etags β β := ⟨fun _ b => b, .inr⟩

/-- An etag that names the upload. -/
def Etags.upload : Etags ℕ β := ⟨fun n _ => n, .inl⟩

structure StoredObject (ε β : Type) where
  body : β
  etag : ε
  version : ℕ
  uploadedAt : ℤ
  deriving DecidableEq

/-- The object is what one of the uploads left at the key. -/
def Uploaded (etags : Etags ε β) (uploads : List (κ × β)) (key : κ) (object : StoredObject ε β) : Prop :=
  uploads[object.version]? = some (key, object.body) ∧ object.etag = etags.tag object.version object.body

variable {etags : Etags ε β} {uploads uploads' : List (κ × β)} {key : κ} {object other : StoredObject ε β}

theorem Uploaded.mono (h : Uploaded etags uploads key object) (hgrows : uploads <+: uploads') :
    Uploaded etags uploads' key object := by
  refine ⟨?_, h.2⟩
  obtain ⟨more, rfl⟩ := hgrows
  rw [List.getElem?_append_left (List.getElem?_eq_some_iff.mp h.1).1]
  exact h.1

theorem Uploaded.lt (h : Uploaded etags uploads key object) : object.version < uploads.length :=
  (List.getElem?_eq_some_iff.mp h.1).1

/-- One etag, one content. -/
theorem Uploaded.body_eq (h : Uploaded etags uploads key object) (hother : Uploaded etags uploads key other)
    (hetag : object.etag = other.etag) : object.body = other.body := by
  rw [h.2, hother.2] at hetag
  rcases etags.strong hetag with hversion | hbody
  · have hsame := h.1.symm.trans (hversion ▸ hother.1)
    exact (Prod.mk.inj (Option.some.inj hsame)).2
  · exact hbody

/-- The objects that stand, and every upload there has been. -/
structure ObjectStore (etags : Etags ε β) (κ : Type) where
  uploads : List (κ × β)
  objects : κ → Option (StoredObject ε β)
  sound : ∀ key object, objects key = some object → Uploaded etags uploads key object

namespace ObjectStore

def empty : ObjectStore etags κ := ⟨[], fun _ => none, nofun⟩

/-- The condition of a put: the etag of the object that stands, or none for a key with no object. -/
def Allows [DecidableEq ε] : Option ε → Option (StoredObject ε β) → Bool
  | none, none => true
  | some etag, some object => object.etag = etag
  | _, _ => false

theorem allows_some [DecidableEq ε] {etag : ε} {standing : Option (StoredObject ε β)} (h : Allows (some etag) standing = true) :
    ∃ object, standing = some object ∧ object.etag = etag := by
  rcases standing with _ | object
  · cases h
  · exact ⟨object, rfl, of_decide_eq_true h⟩

variable (store : ObjectStore etags κ) (body : β) (uploadedAt : ℤ)

/-- What the next upload leaves. -/
def next : StoredObject ε β := ⟨body, etags.tag store.uploads.length body, store.uploads.length, uploadedAt⟩

variable {store body uploadedAt}

@[simp] theorem next_body : (store.next body uploadedAt).body = body := rfl

@[simp] theorem next_version : (store.next body uploadedAt).version = store.uploads.length := rfl

/-- A put on an etag lands only where the object that stands has the contents the etag was read with. -/
theorem body_of_allows [DecidableEq ε] (hread : Uploaded etags store.uploads key object)
    (h : Allows (some object.etag) (store.objects key) = true) :
    ∃ standing, store.objects key = some standing ∧ standing.body = object.body := by
  obtain ⟨standing, hstanding, hetag⟩ := allows_some h
  exact ⟨standing, hstanding, (store.sound key standing hstanding).body_eq hread hetag⟩

variable [DecidableEq κ] (store body uploadedAt)

def upload (key : κ) : ObjectStore etags κ where
  uploads := store.uploads ++ [(key, body)]
  objects := Function.update store.objects key (some (store.next body uploadedAt))
  sound := by
    intro k object h
    rw [Function.update_apply] at h
    split_ifs at h with hk
    · obtain rfl := Option.some.inj h
      subst hk
      exact ⟨List.getElem?_concat_length, rfl⟩
    · exact (store.sound k object h).mono (List.prefix_append _ _)

def put [DecidableEq ε] (key : κ) (condition : Option ε) : Option (StoredObject ε β) × ObjectStore etags κ :=
  if Allows condition (store.objects key) then (some (store.next body uploadedAt), store.upload body uploadedAt key)
  else (none, store)

def delete (key : κ) : ObjectStore etags κ where
  uploads := store.uploads
  objects := Function.update store.objects key none
  sound := by
    intro k object h
    rw [Function.update_apply] at h
    split_ifs at h with hk
    exact store.sound k object h

/-- The keys that hold an object, of those that `wanted` selects. -/
def list (wanted : κ → Bool) : List κ :=
  (store.uploads.map Prod.fst).dedup.filter fun key => wanted key && (store.objects key).isSome

variable {store body uploadedAt}

@[simp] theorem upload_uploads : (store.upload body uploadedAt key).uploads = store.uploads ++ [(key, body)] := rfl

@[simp] theorem upload_objects : (store.upload body uploadedAt key).objects key = some (store.next body uploadedAt) :=
  Function.update_self _ _ _

theorem upload_objects_of_ne {k : κ} (h : k ≠ key) : (store.upload body uploadedAt key).objects k = store.objects k :=
  Function.update_of_ne h _ _

theorem uploaded_next : Uploaded etags (store.upload body uploadedAt key).uploads key (store.next body uploadedAt) :=
  (store.upload body uploadedAt key).sound key _ upload_objects

theorem put_spec [DecidableEq ε] (store : ObjectStore etags κ) (body : β) (uploadedAt : ℤ) (key : κ) (condition : Option ε) :
    store.put body uploadedAt key condition = (none, store) ∨
      Allows condition (store.objects key) = true ∧
        store.put body uploadedAt key condition = (some (store.next body uploadedAt), store.upload body uploadedAt key) := by
  unfold put
  split_ifs with h
  · exact .inr ⟨h, rfl⟩
  · exact .inl rfl

end ObjectStore

end Claxedo.Lib
