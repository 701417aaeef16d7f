import LatexCore.Foundation.Value
import LatexCore.Workspace.State

/-! # Wire form of mutations and manifests

The structured values that the log and the snapshots store: a mutation as a
tagged list of operations, a manifest as an object of its files in path order.
Decoding repeats the checks of the constructors. Both encodings are exact: what
was encoded decodes to itself.
-/
namespace LatexCore.Workspace
open Core Foundation Std

def pathFromValue (v : Value) : Option LogicalPath :=
  v.asStr?.bind (fun text => (LogicalPath.parse text).toOption)

def digestFromValue (v : Value) : Option Digest := v.asStr?.bind Digest.parse?

def sizeFromValue (v : Value) : Option UInt64 := v.asU64?.map UInt64.ofNat

@[simp] theorem pathFromValue_str (path : LogicalPath) :
    pathFromValue (.str path.text) = some path := by
  simp [pathFromValue,LogicalPath.parse_text,Except.toOption]

@[simp] theorem digestFromValue_str (digest : Digest) :
    digestFromValue (.str digest.toHex) = some digest := by
  simp [digestFromValue]

@[simp] theorem sizeFromValue_ofNat (size : UInt64) :
    sizeFromValue (.ofNat size.toNat) = some size := by
  rw [sizeFromValue,Value.asU64?_ofNat size.toNat_lt,Option.map_some,UInt64.ofNat_toNat]

namespace WorkspaceOperationV1

def toValue : WorkspaceOperationV1 → Value
  | putFile path blobHash sizeBytes => .obj [("op",.str "put_file"),("path",.str path.text),
      ("blob_hash",.str blobHash.toHex),("size_bytes",.ofNat sizeBytes.toNat)]
  | deleteFile path => .obj [("op",.str "delete_file"),("path",.str path.text)]
  | renameFile source target => .obj [("op",.str "rename_file"),("from",.str source.text),
      ("to",.str target.text)]
  | setMainFile path => .obj [("op",.str "set_main_file"),("path",.str path.text)]

def fromValue (v : Value) : Option WorkspaceOperationV1 := do
  let path (name : String) := (v.field? name).bind pathFromValue
  match (← v.field? "op").asStr? with
  | some "put_file" =>
    let blobHash ← (v.field? "blob_hash").bind digestFromValue
    let sizeBytes ← (v.field? "size_bytes").bind sizeFromValue
    return putFile (← path "path") blobHash sizeBytes
  | some "delete_file" => return deleteFile (← path "path")
  | some "rename_file" => return renameFile (← path "from") (← path "to")
  | some "set_main_file" => return setMainFile (← path "path")
  | _ => none

@[simp] theorem fromValue_toValue (operation : WorkspaceOperationV1) :
    fromValue operation.toValue = some operation := by
  cases operation with
  | putFile path blobHash sizeBytes =>
    have hop : (toValue (putFile path blobHash sizeBytes)).field? "op" =
        some (.str "put_file") := by simp [toValue]
    have hpath : (toValue (putFile path blobHash sizeBytes)).field? "path" =
        some (.str path.text) := by simp [toValue]
    have hhash : (toValue (putFile path blobHash sizeBytes)).field? "blob_hash" =
        some (.str blobHash.toHex) := by simp [toValue]
    have hsize : (toValue (putFile path blobHash sizeBytes)).field? "size_bytes" =
        some (.ofNat sizeBytes.toNat) := by simp [toValue]
    rw [fromValue,hop]
    dsimp only [Option.bind_eq_bind,Option.bind_some,Value.asStr?_str]
    rw [hhash,hsize,hpath,Option.bind_some,digestFromValue_str,Option.bind_some,Option.bind_some,
      sizeFromValue_ofNat,Option.bind_some,Option.bind_some,pathFromValue_str]
    rfl
  | deleteFile path => simp [fromValue,toValue]
  | renameFile source target => simp [fromValue,toValue]
  | setMainFile path => simp [fromValue,toValue]

end WorkspaceOperationV1

namespace WorkspaceMutationV1

def toValue (mutation : WorkspaceMutationV1) : Value :=
  .obj [("schema_version",.ofNat schemaVersion),
    ("operations",.arr (mutation.operations.map WorkspaceOperationV1.toValue))]

def fromValue (v : Value) : Option WorkspaceMutationV1 := do
  let version ← (v.field? "schema_version").bind Value.asU32?
  let items ← (v.field? "operations").bind Value.asArr?
  let operations ← decodeAll WorkspaceOperationV1.fromValue items
  if version = schemaVersion then (new operations).toOption else none

theorem fromValue_toValue (mutation : WorkspaceMutationV1) :
    fromValue mutation.toValue = some mutation := by
  have hversion : (Value.ofNat schemaVersion).asU32? = some schemaVersion := by decide
  have hitems := decodeAll_map (fun operation (_ : operation ∈ mutation.operations) =>
    WorkspaceOperationV1.fromValue_toValue operation)
  have hnew : new mutation.operations = .ok mutation := dif_pos mutation.nonempty
  simp [fromValue,toValue,hversion,hitems,hnew,Except.toOption]

/-- The field that the replay reads before it decodes the mutation. -/
theorem schemaVersion_toValue (mutation : WorkspaceMutationV1) :
    (mutation.toValue.get? "schema_version").bind Value.asU64? = some schemaVersion := by
  rw [toValue,Value.get?_obj_self]
  rfl

end WorkspaceMutationV1

namespace FileEntryV1

def toValue (entry : FileEntryV1) : Value :=
  .obj [("blob_hash",.str entry.blobHash.toHex),("size_bytes",.ofNat entry.sizeBytes.toNat)]

def fromValue (v : Value) : Option FileEntryV1 := do
  let blobHash ← (v.field? "blob_hash").bind digestFromValue
  let sizeBytes ← (v.field? "size_bytes").bind sizeFromValue
  return ⟨blobHash,sizeBytes⟩

@[simp] theorem fromValue_toValue (entry : FileEntryV1) : fromValue entry.toValue = some entry := by
  have hhash : entry.toValue.field? "blob_hash" = some (.str entry.blobHash.toHex) := by
    simp [toValue]
  have hsize : entry.toValue.field? "size_bytes" = some (.ofNat entry.sizeBytes.toNat) := by
    simp [toValue]
  rw [fromValue,hhash,hsize,Option.bind_some,Option.bind_some,digestFromValue_str,
    sizeFromValue_ofNat]
  rfl

end FileEntryV1

namespace WorkspaceManifestV1

def memberToField (member : LogicalPath × FileEntryV1) : String × Value :=
  (member.1.text,member.2.toValue)

def memberFromField (field : String × Value) : Option (LogicalPath × FileEntryV1) := do
  let path ← (LogicalPath.parse field.1).toOption
  let entry ← FileEntryV1.fromValue field.2
  return (path,entry)

/-- What the canonical JSON prints: its file keys are in path order. -/
def toValue (manifest : WorkspaceManifestV1) : Value :=
  .obj [("schema_version",.ofNat schemaVersion),("main_file",.str manifest.mainFile.text),
    ("files",.obj (manifest.files.toList.map memberToField))]

def fromValue (v : Value) : Option WorkspaceManifestV1 := do
  let version ← (v.field? "schema_version").bind Value.asU32?
  let mainFile ← (v.field? "main_file").bind pathFromValue
  let fields ← (v.field? "files").bind Value.asObj?
  let members ← decodeAll memberFromField fields
  if version = schemaVersion then (new mainFile (ExtTreeMap.ofList members)).toOption else none

theorem memberFromField_toField (member : LogicalPath × FileEntryV1) :
    memberFromField (memberToField member) = some member := by
  simp [memberFromField,memberToField,LogicalPath.parse_text,Except.toOption]

theorem ofList_toList (files : ExtTreeMap LogicalPath FileEntryV1) :
    ExtTreeMap.ofList files.toList = files := by
  apply ExtTreeMap.ext_getElem?
  intro path
  cases h : files[path]? with
  | some entry =>
    have hmem := ExtTreeMap.mem_toList_iff_getElem?_eq_some.mpr h
    exact ExtTreeMap.getElem?_ofList_of_mem ReflCmp.compare_self ExtTreeMap.distinct_keys_toList hmem
  | none =>
    apply ExtTreeMap.getElem?_ofList_of_contains_eq_false
    rw [ExtTreeMap.map_fst_toList_eq_keys]
    simpa using h

theorem fromValue_toValue (manifest : WorkspaceManifestV1) :
    fromValue manifest.toValue = some manifest := by
  have hversion : (Value.ofNat schemaVersion).asU32? = some schemaVersion := by decide
  have hmembers := decodeAll_map (fun member (_ : member ∈ manifest.files.toList) =>
    memberFromField_toField member)
  have hnew : new manifest.mainFile manifest.files = .ok manifest := by
    rw [new,dif_pos manifest.nonempty,dif_pos manifest.mainPresent]
  simp [fromValue,toValue,hversion,hmembers,ofList_toList,hnew,Except.toOption]

end WorkspaceManifestV1
end LatexCore.Workspace
