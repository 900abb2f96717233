import Optiflow.Proof.Provenance

/-!
# Object keys

The keys of a file's objects name the file: its original under `users/`, its thumbnail under
`thumbnails/`, and what a transcode makes under `hls/`.  No key is that of two files (`Owns.id_eq`).
-/

namespace Optiflow

open UploadSvc ApiSvc Workers

/-! ## What is in the bucket -/

namespace Bucket

variable {b : Bucket} {key key' : GoString} {body : Bytes}

/-- There is an object under the key. -/
def has (b : Bucket) (key : GoString) : Bool := (b.object? key).isSome

/-- What is read from the bucket is in it. -/
theorem mem_of_object? (h : b.object? key = some body) : (key, body) ∈ b.objects := by
  obtain ⟨l₁, l₂, h, -⟩ := List.lookup_eq_some_iff.1 h
  rw [h]
  exact List.mem_append_right _ List.mem_cons_self

theorem has_iff : b.has key = true ↔ key ∈ b.objects.map Prod.fst := by
  rw [has, Option.isSome_iff_exists]
  constructor
  · rintro ⟨body, h⟩
    exact List.mem_map_of_mem (f := Prod.fst) (mem_of_object? h)
  · intro h
    obtain ⟨o, ho, rfl⟩ := List.mem_map.1 h
    cases hl : b.object? o.1 with
    | none => exact absurd (List.lookup_eq_none_iff.1 hl o ho) (by simp)
    | some body => exact ⟨body, rfl⟩

@[simp] theorem has_put_self : (b.put key body).has key = true := by
  rw [has, object?_put]
  rfl

theorem has_put (h : b.has key' = true) : (b.put key body).has key' = true := by
  by_cases hk : key' = key
  · rw [hk, has_put_self]
  · rwa [has, object?_put_ne hk]

theorem has_remove_ne (h : key' ≠ key) : (b.remove key).has key' = b.has key' := by
  rw [has, has, object?_remove_ne h]

theorem has_remove_self : (b.remove key).has key = false := by
  rw [has, object?_remove]
  rfl

end Bucket

/-! ## The keys of a file -/

/-- The key is one of the file's. -/
def Owns (id : UUID) (key : GoString) : Prop :=
  (∃ userID name, key = storageKey userID id name) ∨ key = thumbnailKey id ∨ hlsPrefix id <+: key

section Keys

variable {userID userID' id id' : UUID} {name name' key : GoString}

/-- The key of a file's object names the file. -/
theorem storageKey_inj (h : storageKey userID id name = storageKey userID' id' name') : id = id' := by
  simp only [storageKey, List.append_assoc] at h
  have hrest := List.append_cancel_left h
  have huser := List.append_inj_right hrest (by simp)
  have hid := List.append_inj_left (List.append_cancel_left huser) (by simp)
  exact UUID.string_injective hid

theorem thumbnailKey_inj (h : thumbnailKey id = thumbnailKey id') : id = id' :=
  UUID.string_injective (List.append_cancel_left (List.append_cancel_right h))

theorem hlsPrefix_inj (h : hlsPrefix id <+: key) (h' : hlsPrefix id' <+: key) : id = id' := by
  have hlen : (hlsPrefix id).length = (hlsPrefix id').length := by simp [hlsPrefix]
  have heq := (List.prefix_of_prefix_length_le h h' hlen.le).eq_of_length hlen
  exact UUID.string_injective (List.append_cancel_left (List.append_cancel_right heq))

/-- The first letters tell the families of keys apart. -/
theorem head?_storageKey : (storageKey userID id name).head? = some 117 := rfl

theorem head?_thumbnailKey : (thumbnailKey id).head? = some 116 := rfl

theorem head?_of_hlsPrefix (h : hlsPrefix id <+: key) : key.head? = some 104 := by
  obtain ⟨rest, rfl⟩ := h
  rfl

theorem not_hlsPrefix_storageKey : ¬hlsPrefix id <+: storageKey userID id' name := fun h =>
  absurd (head?_of_hlsPrefix h) (by rw [head?_storageKey]; decide)

theorem not_hlsPrefix_thumbnailKey : ¬hlsPrefix id <+: thumbnailKey id' := fun h =>
  absurd (head?_of_hlsPrefix h) (by rw [head?_thumbnailKey]; decide)

theorem storageKey_ne_thumbnailKey : storageKey userID id name ≠ thumbnailKey id' := fun h =>
  absurd (congrArg List.head? h) (by rw [head?_storageKey, head?_thumbnailKey]; decide)

theorem posterKey_eq : posterKey id = hlsPrefix id ++ lit "poster.jpg" := by
  have hslash : lit "/poster.jpg" = lit "/" ++ lit "poster.jpg" := by decide
  rw [posterKey, hlsDirectory, hlsPrefix, hslash, ← List.append_assoc]

theorem masterKey_eq : masterKey id = hlsPrefix id ++ lit "master.m3u8" := by
  have hslash : lit "/master.m3u8" = lit "/" ++ lit "master.m3u8" := by decide
  rw [masterKey, hlsDirectory, hlsPrefix, hslash, ← List.append_assoc]

theorem hlsPrefix_posterKey : hlsPrefix id <+: posterKey id := ⟨_, posterKey_eq.symm⟩

theorem hlsPrefix_masterKey : hlsPrefix id <+: masterKey id := ⟨_, masterKey_eq.symm⟩

theorem owns_storageKey : Owns id (storageKey userID id name) := Or.inl ⟨userID, name, rfl⟩

theorem owns_thumbnailKey : Owns id (thumbnailKey id) := Or.inr (Or.inl rfl)

theorem owns_of_hlsPrefix (h : hlsPrefix id <+: key) : Owns id key := Or.inr (Or.inr h)

/-- **No key is that of two files.** -/
theorem Owns.id_eq (h : Owns id key) (h' : Owns id' key) : id = id' := by
  obtain ⟨userID, name, rfl⟩ | rfl | h := h
  · obtain ⟨userID', name', heq⟩ | heq | h' := h'
    · exact storageKey_inj heq
    · exact absurd heq storageKey_ne_thumbnailKey
    · exact absurd h' not_hlsPrefix_storageKey
  · obtain ⟨userID', name', heq⟩ | heq | h' := h'
    · exact absurd heq.symm storageKey_ne_thumbnailKey
    · exact thumbnailKey_inj heq
    · exact absurd h' not_hlsPrefix_thumbnailKey
  · obtain ⟨userID', name', rfl⟩ | rfl | h' := h'
    · exact absurd h not_hlsPrefix_storageKey
    · exact absurd h not_hlsPrefix_thumbnailKey
    · exact hlsPrefix_inj h h'

theorem WorkerKey.ne_storageKey (h : WorkerKey key) (userID id : UUID) (name : GoString) :
    key ≠ storageKey userID id name := by
  have husers : lit "users/" = 117 :: lit "sers/" := by decide
  rintro rfl
  simp only [WorkerKey, storageKey, List.append_assoc, husers, List.cons_append] at h
  rcases h with ⟨rest, h⟩ | ⟨rest, h⟩
  · exact absurd (List.cons.inj h).1 (by decide)
  · exact absurd (List.cons.inj h).1 (by decide)

end Keys

end Optiflow
