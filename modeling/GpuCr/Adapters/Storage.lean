import GpuCr.Adapters.Gcr
import GpuCr.Lib.Ledger

/-!
# The host buffers of the adapter

`release_buffer` and `allocate_buffer` with the three kinds of storage, the files of the third among them. A `StoredProcess`
is the process of the adapter with the storage behind its two buffers. Its log says what is obtained from the system and given
back. What the system gives out, a file apart, is named by a number that is used once, so that a pointer or a descriptor that
is kept too long is not taken for a new one.
-/

namespace GpuCr

open Lib.Run Lib.Ledger

inductive StorageResource where
  | mapping (addr : Nat)
  | pinned (addr : Nat)
  | descriptor (fd : Nat)
  | file (path : List Char)
  deriving DecidableEq, Repr

/-- The number of the resource has been given out. -/
def StorageResource.Below (next : Nat) : StorageResource → Prop
  | .mapping n | .pinned n | .descriptor n => n < next
  | .file _ => True

theorem StorageResource.Below.mono {n m : Nat} {r : StorageResource} (h : r.Below n) (hle : n ≤ m) : r.Below m := by
  cases r with
  | mapping k => exact Nat.lt_of_lt_of_le h hle
  | pinned k => exact Nat.lt_of_lt_of_le h hle
  | descriptor k => exact Nat.lt_of_lt_of_le h hle
  | file path => trivial

/-- The null pointer and the descriptor `-1` are `none`. -/
structure StorageBuffer where
  ptr : Option Nat
  size : Nat
  fd : Option Nat
  pinned : Bool
  path : List Char

/-- `fileSeq` is `g_storage_file_seq`, `next` what the system gives out next. -/
structure StorageSystem where
  fileSeq : Nat
  next : Nat
  log : List (Act StorageResource)

inductive StorageBackend where
  | anon
  | pinned
  | hugepage
  deriving DecidableEq, Repr

/-- What an allocation finds: `GCR_STORAGE_BACKEND` and `GCR_STORAGE_DIR`, the process id, and whether the calls succeed. An
existing directory is no failure of `mkdir`. -/
structure AllocAnswers where
  backendVar : Option (List Char)
  dirVar : Option (List Char)
  pid : Nat
  hostAlloc : Bool
  mkdir : Bool
  open_ : Bool
  ftruncate : Bool
  mmap : Bool

/-! ### The names -/

def storageBackend (var : Option (List Char)) : StorageBackend :=
  if var = some ['p', 'i', 'n', 'n', 'e', 'd'] then .pinned
  else if var = some ['h', 'u', 'g', 'e', 'p', 'a', 'g', 'e'] then .hugepage
  else .anon

def storageDirDefault : List Char := "/mnt/huge-ckpt/nccl-gcr".toList

def storageDir : Option (List Char) → List Char
  | some (c :: cs) => c :: cs
  | _ => storageDirDefault

def exportName : List Char := ['e', 'x', 'p', 'o', 'r', 't']

def localName : List Char := ['l', 'o', 'c', 'a', 'l', '_', 'c', 'u', 'm', 'e', 'm']

def fileName (name : List Char) (pid seq : Nat) : List Char :=
  name ++ '-' :: Nat.toDigits 10 pid ++ '-' :: Nat.toDigits 10 seq ++ ['.', 'b', 'i', 'n']

/-- What `snprintf` leaves in `path[512]`. -/
def filePath (dir name : List Char) (pid seq : Nat) : List Char := (dir ++ '/' :: fileName name pid seq).take 511

namespace StorageSystem

def logs (os : StorageSystem) (acts : List (Act StorageResource)) : StorageSystem := { os with log := os.log ++ acts }

end StorageSystem

namespace StorageBuffer

def empty : StorageBuffer := ⟨none, 0, none, false, []⟩

/-- The memory behind the pointer. -/
def memory (buf : StorageBuffer) : Option StorageResource :=
  if buf.size = 0 then none else buf.ptr.map (if buf.pinned then .pinned else .mapping)

def held (buf : StorageBuffer) : List StorageResource :=
  buf.memory.toList ++ buf.fd.toList.map .descriptor ++ if buf.path = [] then [] else [.file buf.path]

/-- `buffer->ptr && buffer->size`. -/
def inUse (buf : StorageBuffer) : Bool := buf.ptr.isSome && buf.size != 0

/-- `release_buffer`. -/
def releaseBuffer (buf : StorageBuffer) (os : StorageSystem) : StorageBuffer × StorageSystem :=
  let os := os.logs (buf.memory.toList.map .give)
  let os := os.logs (buf.fd.toList.map fun fd => .give (.descriptor fd))
  let os := if buf.path = [] then os else os.logs [.give (.file buf.path)]
  (empty, os)

/-- The file of a buffer, before it is mapped: whether it could be made, the buffer and its descriptor. -/
def openFile (name : List Char) (a : AllocAnswers) (os : StorageSystem) :
    Bool × StorageBuffer × StorageSystem :=
  if !a.mkdir then (false, empty, os)
  else
    let path := filePath (storageDir a.dirVar) name a.pid os.fileSeq
    let os := { os with fileSeq := os.fileSeq + 1 }
    if !a.open_ then (false, empty, os)
    else
      let fd := os.next
      let os := { os.logs [.take (.file path), .take (.descriptor fd)] with next := os.next + 1 }
      if !a.ftruncate then (false, empty, os.logs [.give (.descriptor fd), .give (.file path)])
      else (true, { empty with fd := some fd, path := path }, os)

/-- The mapping of the file, or of memory without one. -/
def mapStorage (needed : Nat) (a : AllocAnswers) (buf : StorageBuffer) (os : StorageSystem) :
    Bool × StorageBuffer × StorageSystem :=
  if !a.mmap then
    (false, empty,
      match buf.fd with
      | none => os
      | some fd => os.logs [.give (.descriptor fd), .give (.file buf.path)])
  else
    (true, { buf with ptr := some os.next, size := needed },
      { os.logs [.take (.mapping os.next)] with next := os.next + 1 })

def fileStorage (needed : Nat) (name : List Char) (a : AllocAnswers) (os : StorageSystem) :
    Bool × StorageBuffer × StorageSystem :=
  let r := openFile name a os
  if r.1 then mapStorage needed a r.2.1 r.2.2 else r

def pinStorage (needed : Nat) (a : AllocAnswers) (os : StorageSystem) : Bool × StorageBuffer × StorageSystem :=
  if !a.hostAlloc then (false, empty, os)
  else
    (true, { empty with ptr := some os.next, size := needed, pinned := true },
      { os.logs [.take (.pinned os.next)] with next := os.next + 1 })

/-- `allocate_buffer`. -/
def allocateBuffer (buf : StorageBuffer) (needed : Nat) (name : List Char) (a : AllocAnswers) (os : StorageSystem) :
    Bool × StorageBuffer × StorageSystem :=
  let os := (buf.releaseBuffer os).2
  if needed = 0 then (true, empty, os)
  else
    match storageBackend a.backendVar with
    | .pinned => pinStorage needed a os
    | .hugepage => fileStorage needed name a os
    | .anon => mapStorage needed a empty os

/-! ### The ledger of one buffer -/

section Ledger
variable {buf : StorageBuffer} {os : StorageSystem} {rest : List StorageResource} {name : List Char} {a : AllocAnswers}
  {needed : Nat}

@[simp] theorem held_empty : empty.held = [] := rfl

theorem filePath_ne_nil (dir name : List Char) (pid seq : Nat) : filePath dir name pid seq ≠ [] := by
  cases dir <;> simp [filePath]

/-- The log accounts for the buffer and for the rest of what is held, none of which is still to come. -/
structure Settled (buf : StorageBuffer) (rest : List StorageResource) (os : StorageSystem) : Prop where
  leads : Leads [] os.log (buf.held ++ rest)
  below : ∀ r ∈ buf.held ++ rest, r.Below os.next

theorem settled_release (h : Settled buf rest os) : Settled empty rest (buf.releaseBuffer os).2 := by
  have hlog : (buf.releaseBuffer os).2.log = os.log ++ buf.held.map .give := by
    unfold releaseBuffer held StorageSystem.logs
    dsimp only
    split_ifs <;> simp [Function.comp_def]
  have hnext : (buf.releaseBuffer os).2.next = os.next := by
    unfold releaseBuffer StorageSystem.logs
    dsimp only
    split_ifs <;> rfl
  refine ⟨?_, fun r hr => ?_⟩
  · rw [hlog]
    exact h.leads.append (.gives buf.held rest)
  · rw [hnext]
    exact h.below r (List.mem_append_right _ hr)

theorem fileSeq_release (buf : StorageBuffer) (os : StorageSystem) : (buf.releaseBuffer os).2.fileSeq = os.fileSeq := by
  unfold releaseBuffer StorageSystem.logs
  dsimp only
  split_ifs <;> rfl

/-- A resource that the system gives out now is not held yet. -/
theorem Settled.fresh (h : Settled buf rest os) {r : StorageResource} (hr : ¬ r.Below os.next) : r ∉ buf.held ++ rest :=
  fun hmem => hr (h.below r hmem)

theorem settled_openFile (h : Settled empty rest os)
    (hpath : .file (filePath (storageDir a.dirVar) name a.pid os.fileSeq) ∉ rest) :
    Settled (openFile name a os).2.1 rest (openFile name a os).2.2 := by
  have hfd : StorageResource.descriptor os.next ∉ empty.held ++ rest := h.fresh (Nat.lt_irrefl _)
  have htake : Leads [] (os.log ++ [.take (.file (filePath (storageDir a.dirVar) name a.pid os.fileSeq)),
      .take (.descriptor os.next)])
      (.descriptor os.next :: .file (filePath (storageDir a.dirVar) name a.pid os.fileSeq) :: rest) := by
    refine h.leads.append ((Leads.take hpath).append (.take ?_))
    simpa using hfd
  unfold openFile
  dsimp only
  split_ifs
  · exact h
  · exact ⟨h.leads, h.below⟩
  · refine ⟨htake.append (.gives [_, _] rest), fun r hr => (h.below r hr).mono (Nat.le_succ _)⟩
  · have hheld : held { empty with fd := some os.next, path := filePath (storageDir a.dirVar) name a.pid os.fileSeq } =
        [.descriptor os.next, .file (filePath (storageDir a.dirVar) name a.pid os.fileSeq)] := by
      simp [held, memory, empty, filePath_ne_nil]
    refine ⟨?_, fun r hr => ?_⟩
    · rw [hheld]
      exact htake
    · rw [hheld] at hr
      obtain rfl | rfl | hr := by simpa using hr
      · exact Nat.lt_succ_self _
      · trivial
      · exact (h.below r hr).mono (Nat.le_succ _)

theorem settled_mapStorage (h : Settled buf rest os) (hempty : buf.size = 0) (hpinned : buf.pinned = false)
    (hfile : buf.fd = none ↔ buf.path = []) (hpos : needed ≠ 0) :
    Settled (mapStorage needed a buf os).2.1 rest (mapStorage needed a buf os).2.2 := by
  have hheld : buf.held = buf.fd.toList.map .descriptor ++ if buf.path = [] then [] else [.file buf.path] := by
    simp [held, memory, hempty]
  unfold mapStorage
  split_ifs
  · cases hfd : buf.fd with
    | none =>
      have hnone : buf.held = [] := by rw [hheld, hfd, hfile.1 hfd]; rfl
      exact ⟨by simpa [hnone] using h.leads, fun r hr => h.below r (List.mem_append_right _ hr)⟩
    | some fd =>
      have hpath : buf.path ≠ [] := fun hp => by rw [hfile.2 hp] at hfd; cases hfd
      have hsome : buf.held = [.descriptor fd, .file buf.path] := by rw [hheld, hfd, if_neg hpath]; rfl
      have hleads := h.leads
      rw [hsome] at hleads
      exact ⟨hleads.append (.gives [_, _] rest), fun r hr => h.below r (List.mem_append_right _ hr)⟩
  · have hmapped : held { buf with ptr := some os.next, size := needed } = .mapping os.next :: buf.held := by
      rw [hheld]
      simp [held, memory, hpos, hpinned]
    refine ⟨?_, fun r hr => ?_⟩
    · rw [hmapped]
      exact h.leads.append (.take (h.fresh (Nat.lt_irrefl _)))
    · rw [hmapped] at hr
      obtain rfl | hr := List.mem_cons.1 hr
      · exact Nat.lt_succ_self _
      · exact (h.below r hr).mono (Nat.le_succ _)

theorem openFile_spec (name : List Char) (a : AllocAnswers) (os : StorageSystem) : (openFile name a os).2.1.size = 0 ∧ (openFile name a os).2.1.pinned = false ∧
    ((openFile name a os).2.1.fd = none ↔ (openFile name a os).2.1.path = []) ∧
    ((openFile name a os).1 = false → (openFile name a os).2.1 = empty) := by
  unfold openFile
  dsimp only
  split_ifs <;> simp [empty, filePath_ne_nil]

theorem settled_fileStorage (h : Settled empty rest os)
    (hpath : .file (filePath (storageDir a.dirVar) name a.pid os.fileSeq) ∉ rest) (hpos : needed ≠ 0) :
    Settled (fileStorage needed name a os).2.1 rest (fileStorage needed name a os).2.2 := by
  have hopen := settled_openFile h hpath
  obtain ⟨hsize, hpinned, hfile, -⟩ := openFile_spec name a os
  unfold fileStorage
  dsimp only
  split_ifs
  · exact settled_mapStorage hopen hsize hpinned hfile hpos
  · exact hopen

theorem settled_pinStorage (h : Settled empty rest os) (hpos : needed ≠ 0) :
    Settled (pinStorage needed a os).2.1 rest (pinStorage needed a os).2.2 := by
  unfold pinStorage
  split_ifs
  · exact h
  · have hheld : held { empty with ptr := some os.next, size := needed, pinned := true } = [.pinned os.next] := by
      simp [held, memory, empty, hpos]
    refine ⟨?_, fun r hr => ?_⟩
    · rw [hheld]
      exact h.leads.append (.take (h.fresh (Nat.lt_irrefl _)))
    · rw [hheld] at hr
      obtain rfl | hr := List.mem_cons.1 hr
      · exact Nat.lt_succ_self _
      · exact (h.below r hr).mono (Nat.le_succ _)

theorem settled_allocateBuffer (needed : Nat) (h : Settled buf rest os)
    (hpath : .file (filePath (storageDir a.dirVar) name a.pid os.fileSeq) ∉ rest) :
    Settled (buf.allocateBuffer needed name a os).2.1 rest (buf.allocateBuffer needed name a os).2.2 := by
  have hrel := settled_release h
  rw [← fileSeq_release buf os] at hpath
  unfold allocateBuffer
  dsimp only
  split_ifs with hneeded
  · exact hrel
  · cases storageBackend a.backendVar with
    | pinned => exact settled_pinStorage hrel hneeded
    | hugepage => exact settled_fileStorage hrel hpath hneeded
    | anon => exact settled_mapStorage hrel rfl rfl (iff_of_true rfl rfl) hneeded

/-- Storage of the size that is needed, or none. -/
def Provides (needed : Nat) (r : Bool × StorageBuffer × StorageSystem) : Prop :=
  r.1 = false ∧ r.2.1 = empty ∨ r.1 = true ∧ r.2.1.ptr.isSome = true ∧ r.2.1.size = needed

theorem provides_mapStorage (buf : StorageBuffer) : Provides needed (mapStorage needed a buf os) := by
  unfold mapStorage
  split_ifs
  · exact .inl ⟨rfl, rfl⟩
  · exact .inr ⟨rfl, rfl, rfl⟩

theorem provides_fileStorage : Provides needed (fileStorage needed name a os) := by
  unfold fileStorage
  dsimp only
  split_ifs with hopen
  · exact provides_mapStorage _
  · have hfalse := Bool.eq_false_of_not_eq_true hopen
    exact .inl ⟨hfalse, (openFile_spec name a os).2.2.2 hfalse⟩

theorem provides_pinStorage : Provides needed (pinStorage needed a os) := by
  unfold pinStorage
  split_ifs
  · exact .inl ⟨rfl, rfl⟩
  · exact .inr ⟨rfl, rfl, rfl⟩

/-- The buffer is the storage of what the adapter keeps in it. -/
def Backs (buf : StorageBuffer) (data : Option HostBuf) : Prop :=
  buf = empty ∧ data = none ∨ buf.ptr.isSome = true ∧ ∃ d, data = some d ∧ d.size = buf.size ∧ 0 < d.size

theorem backs_of_provides {r : Bool × StorageBuffer × StorageSystem} (h : Provides needed r) (hpos : needed ≠ 0)
    (fresh : Nat → Byte) :
    (GpuCr.allocateBuffer needed r.1 fresh).1 = r.1 ∧ Backs r.2.1 (GpuCr.allocateBuffer needed r.1 fresh).2 := by
  unfold GpuCr.allocateBuffer
  rw [if_neg hpos]
  obtain ⟨hok, hbuf⟩ | ⟨hok, hptr, hsize⟩ := h
  · rw [hok, if_neg Bool.false_ne_true]
    exact ⟨rfl, .inl ⟨hbuf, rfl⟩⟩
  · rw [hok, if_pos rfl]
    exact ⟨rfl, .inr ⟨hptr, _, rfl, hsize.symm, Nat.pos_of_ne_zero hpos⟩⟩

theorem backs_allocateBuffer (buf : StorageBuffer) (needed : Nat) (name : List Char) (a : AllocAnswers) (os : StorageSystem)
    (fresh : Nat → Byte) :
    (GpuCr.allocateBuffer needed (buf.allocateBuffer needed name a os).1 fresh).1 =
        (buf.allocateBuffer needed name a os).1 ∧
      Backs (buf.allocateBuffer needed name a os).2.1
        (GpuCr.allocateBuffer needed (buf.allocateBuffer needed name a os).1 fresh).2 := by
  unfold allocateBuffer
  dsimp only
  split_ifs with hneeded
  · unfold GpuCr.allocateBuffer
    rw [if_pos hneeded]
    exact ⟨rfl, .inl ⟨rfl, rfl⟩⟩
  · cases storageBackend a.backendVar with
    | pinned => exact backs_of_provides provides_pinStorage hneeded fresh
    | hugepage => exact backs_of_provides provides_fileStorage hneeded fresh
    | anon => exact backs_of_provides (provides_mapStorage empty) hneeded fresh

theorem Backs.congr {data data' : Option HostBuf} (h : Backs buf data)
    (hsize : data'.map (·.size) = data.map (·.size)) : Backs buf data' := by
  obtain ⟨hbuf, rfl⟩ | ⟨hptr, d, rfl, hd, hpos⟩ := h
  · exact .inl ⟨hbuf, Option.map_eq_none_iff.1 hsize⟩
  · obtain ⟨d', hd', heq⟩ := Option.map_eq_some_iff.1 hsize
    exact .inr ⟨hptr, d', hd', heq.trans hd, heq ▸ hpos⟩

theorem Backs.inUse_eq {data : Option HostBuf} (h : Backs buf data) : buf.inUse = data.isSome := by
  obtain ⟨rfl, rfl⟩ | ⟨hptr, d, rfl, hd, hpos⟩ := h
  · rfl
  · have hne : buf.size ≠ 0 := by omega
    simp [inUse, hptr, hne]

end Ledger

/-! ### Two files -/

theorem not_mem_fileName {name : List Char} (hname : '/' ∉ name) (pid seq : Nat) : '/' ∉ fileName name pid seq := by
  have hdigits : ∀ n, '/' ∉ Nat.toDigits 10 n := fun n h =>
    absurd (Nat.isDigit_of_mem_toDigits (by decide) (by decide) h) (by decide)
  simp [fileName, hname, hdigits]

/-- The last separator is where the name of the file begins. -/
theorem split_inj {a b x y : List Char} (hx : '/' ∉ x) (hy : '/' ∉ y) (h : a ++ '/' :: x = b ++ '/' :: y) : x = y := by
  obtain ⟨as, hb, has⟩ | ⟨as, ha, has⟩ := List.append_eq_append_iff.1 h
  · cases as with
    | nil => exact (List.cons.inj has).2
    | cons c as =>
      refine absurd ?_ hx
      rw [(List.cons.inj has).2]
      exact List.mem_append_right _ List.mem_cons_self
  · cases as with
    | nil => exact (List.cons.inj has).2.symm
    | cons c as =>
      refine absurd ?_ hy
      rw [(List.cons.inj has).2]
      exact List.mem_append_right _ List.mem_cons_self

/-- Something of the name is left in the path of a directory that is not too long. -/
theorem filePath_eq {dir : List Char} (c : Char) (name : List Char) (hdir : dir.length < 510) (pid seq : Nat) :
    ∃ rest, filePath dir (c :: name) pid seq = dir ++ '/' :: c :: rest ∧ ∀ x ∈ rest, x ∈ fileName (c :: name) pid seq := by
  obtain ⟨k, hk⟩ : ∃ k, 511 = dir.length + (k + 2) := ⟨509 - dir.length, by omega⟩
  refine ⟨(name ++ '-' :: Nat.toDigits 10 pid ++ '-' :: Nat.toDigits 10 seq ++ ['.', 'b', 'i', 'n']).take k, ?_, fun x hx => ?_⟩
  · unfold filePath
    rw [hk, List.take_length_add_append]
    rfl
  · exact List.mem_cons_of_mem c (List.mem_of_mem_take hx)

theorem filePath_ne {dir dir' : List Char} (hdir : dir.length < 510) (hdir' : dir'.length < 510) (pid pid' seq seq' : Nat) :
    filePath dir exportName pid seq ≠ filePath dir' localName pid' seq' := by
  obtain ⟨x, hx, hmem⟩ := filePath_eq 'e' ['x', 'p', 'o', 'r', 't'] hdir pid seq
  obtain ⟨y, hy, hmem'⟩ := filePath_eq 'l' ['o', 'c', 'a', 'l', '_', 'c', 'u', 'm', 'e', 'm'] hdir' pid' seq'
  intro h
  have hsep : '/' ∉ x := fun hx => not_mem_fileName (show '/' ∉ exportName by decide) pid seq (hmem _ hx)
  have hsep' : '/' ∉ y := fun hy => not_mem_fileName (show '/' ∉ localName by decide) pid' seq' (hmem' _ hy)
  have hcons := split_inj (a := dir) (b := dir') (x := 'e' :: x) (y := 'l' :: y) (by simp [hsep]) (by simp [hsep'])
    ((hx.symm.trans h).trans hy)
  exact absurd (List.cons.inj hcons).1 (by decide)

/-- The files of the two buffers in one directory are the same file exactly if its name fills the path. -/
theorem filePath_eq_iff (dir : List Char) (pid seq seq' : Nat) :
    filePath dir exportName pid seq = filePath dir localName pid seq' ↔ 510 ≤ dir.length := by
  refine ⟨fun h => ?_, fun h => ?_⟩
  · by_contra hlt
    exact filePath_ne (Nat.lt_of_not_le hlt) (Nat.lt_of_not_le hlt) pid pid seq seq' h
  · have hcut : ∀ f : List Char, (dir ++ '/' :: f).take 511 = (dir ++ ['/']).take 511 := by
      intro f
      rw [List.append_cons, List.take_append_of_le_length (by simp; omega)]
    exact (hcut _).trans (hcut _).symm

/-- The file of the buffer, if there is one, is in a directory whose name leaves room. -/
def Named (name : List Char) (buf : StorageBuffer) : Prop :=
  buf.path = [] ∨ ∃ dir pid seq, dir.length < 510 ∧ buf.path = filePath dir name pid seq

theorem named_mapStorage {name : List Char} {needed : Nat} {a : AllocAnswers} {buf : StorageBuffer} {os : StorageSystem}
    (h : Named name buf) : Named name (mapStorage needed a buf os).2.1 := by
  unfold mapStorage
  split_ifs
  · exact .inl rfl
  · exact h

theorem named_allocateBuffer (buf : StorageBuffer) (needed : Nat) (name : List Char) {a : AllocAnswers}
    (os : StorageSystem) (hdir : (storageDir a.dirVar).length < 510) :
    Named name (buf.allocateBuffer needed name a os).2.1 := by
  unfold allocateBuffer
  dsimp only
  split_ifs
  · exact .inl rfl
  · cases storageBackend a.backendVar with
    | pinned =>
      dsimp only
      unfold pinStorage
      split_ifs
      · exact .inl rfl
      · exact .inl rfl
    | hugepage =>
      have hopen : ∀ os, Named name (openFile name a os).2.1 := by
        intro os
        unfold openFile
        dsimp only
        split_ifs
        · exact .inl rfl
        · exact .inl rfl
        · exact .inl rfl
        · exact .inr ⟨_, _, _, hdir, rfl⟩
      dsimp only
      unfold fileStorage
      dsimp only
      split_ifs
      · exact named_mapStorage (hopen _)
      · exact hopen _
    | anon => exact named_mapStorage (.inl rfl)

theorem file_not_mem_held {buf : StorageBuffer} {path : List Char} (h : buf.path ≠ path) :
    StorageResource.file path ∉ buf.held := by
  have hmem : StorageResource.file path ∉ buf.memory.toList := by
    unfold memory
    cases buf.ptr <;> split_ifs <;> simp
  unfold held
  split_ifs <;> simp [hmem, Ne.symm h]

end StorageBuffer

end GpuCr
