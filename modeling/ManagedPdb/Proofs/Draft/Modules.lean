import ManagedPdb.Draft.Image
import ManagedPdb.Module.DebugStream
import ManagedPdb.Proofs.Text

/-!
# Modules that were written

The debug information stream is read back as it was written (`reads_debugStream`): its header, the
descriptors of the modules one after the other, and the list with the stream of the token remap
table.  A descriptor is filled up to a multiple of four bytes, and so every descriptor starts at
one.
-/

namespace ManagedPdb

/-! ### Descriptors -/

namespace ModuleDraft

/-- The size of the symbol region, which is empty where the module has no stream. -/
def symbolsSize (draft : ModuleDraft) : Nat := (draft.symbols.map ByteArray.size).getD 0

/-- The descriptor as it is read back. -/
def written (draft : ModuleDraft) (stream : Option UInt16) : ModuleDescriptor where
  contribution := ⟨1, 0, 0, 0, 0, 0, 0⟩
  flags := 0
  streamField := stream.getD 0xffff
  symbolsSize := UInt32.ofNat draft.symbolsSize
  oldLinesSize := 0
  linesSize := UInt32.ofNat draft.lines.size
  fileCount := 0
  sourceNameId := 0
  compilerNameId := 0
  name := draft.name
  objectName := some draft.objectName

/-- The names of the module can be ended by a zero byte. -/
structure Named (draft : ModuleDraft) : Prop where
  name : ZeroFree draft.name
  objectName : ZeroFree draft.objectName

theorem size_descriptor_mod (draft : ModuleDraft) (stream : Option UInt16) :
    (draft.descriptor stream).size % 4 = 0 := by
  rw [descriptor, Bytes.size_padded]
  omega

theorem size_descriptor_pos (draft : ModuleDraft) (stream : Option UInt16) :
    0 < (draft.descriptor stream).size := by
  simp only [descriptor, Bytes.size_padded, ByteArray.size_append, Bytes.size_uint32]
  omega

theorem reads_descriptor {draft : ModuleDraft} (named : draft.Named) (stream : Option UInt16)
    {start : Nat} (haligned : start % 4 = 0)
    (hbound : start + (draft.descriptor stream).size < 2 ^ 32) :
    Reads (ModuleDescriptor.read true) start (draft.descriptor stream) (draft.written stream) := by
  unfold ModuleDescriptor.read SectionContribution.read
  simp only [bind_assoc, pure_bind, if_true]
  rw [descriptor, Bytes.size_padded] at hbound
  rw [descriptor, Bytes.padded]
  simp only [Bytes.uint32s_cons, Bytes.uint32s_nil, ByteArray.append_empty, ByteArray.append_assoc]
  refine .bind (.uint32 _) ?_
  refine .bind (.uint16 _) (.bind (.uint16 _) ?_)
  refine .bind (.uint32 _) (.bind (.uint32 _) (.bind (.uint32 _) ?_))
  refine .bind (.uint16 _) (.bind (.uint16 _) (.bind (.uint32 _) (.bind (.uint32 _) ?_)))
  -- flags, the stream, and the sizes of its regions
  refine .bind (.uint16 _) (.bind (.uint16 _) ?_)
  refine .bind (.uint32 _) (.bind (.uint32 _) (.bind (.uint32 _) ?_))
  refine .bind (.uint16 _) (.bind (.uint16 _) ?_)
  refine .bind (.uint32 _) (.bind (.uint32 _) (.bind (.uint32 _) ?_))
  refine .bind (.terminatedString named.name) ?_
  refine .bind (.map some (.terminatedString named.objectName)) ?_
  refine .bind_empty (.align_four ?_ ?_) (.pure _)
  · simp only [Bytes.size_zeros, ByteArray.size_append, Bytes.size_uint32, Bytes.size_uint16]
    omega
  · simp only [ByteArray.size_append, Bytes.uint32s_cons, Bytes.uint32s_nil,
      ByteArray.size_empty] at hbound
    omega

end ModuleDraft

/-! ### The module list -/

namespace ImageDraft

/-- The descriptors of modules that have the given streams. -/
def moduleList (modules : List (ModuleDraft × Option UInt16)) : ByteArray :=
  Bytes.concat (modules.map fun (descriptor, stream) => descriptor.descriptor stream)

/-- The modules as they are read back. -/
def writtenModules (modules : List (ModuleDraft × Option UInt16)) : List ModuleDescriptor :=
  modules.map fun (descriptor, stream) => descriptor.written stream

/-- The loop puts the modules behind those found before. -/
theorem reads_moduleList {modules : List (ModuleDraft × Option UInt16)}
    (named : ∀ entry ∈ modules, entry.1.Named) {start : Nat} (haligned : start % 4 = 0)
    (hbound : start + (moduleList modules).size < 2 ^ 32) (before : Array ModuleDescriptor) :
    Reads (Reader.whileBelow (start + (moduleList modules).size)
        (fun modules => do return modules.push (← ModuleDescriptor.read true)) before) start
      (moduleList modules) (before ++ (writtenModules modules).toArray) := by
  induction modules generalizing start before with
  | nil =>
    have hnone : before ++ (writtenModules []).toArray = before := by simp [writtenModules]
    rw [hnone]
    exact .whileBelow_done (Nat.le_refl _)
  | cons entry rest ih =>
    obtain ⟨hentry, hrest⟩ := List.forall_mem_cons.mp named
    have hsplit : moduleList (entry :: rest)
        = entry.1.descriptor entry.2 ++ moduleList rest := Bytes.concat_cons ..
    have hpos := entry.1.size_descriptor_pos entry.2
    have hmod := entry.1.size_descriptor_mod entry.2
    have hpush : before ++ (writtenModules (entry :: rest)).toArray
        = before.push (entry.1.written entry.2) ++ (writtenModules rest).toArray := by
      simp [writtenModules]
    rw [hsplit, ByteArray.size_append, ← Nat.add_assoc] at hbound ⊢
    rw [hpush]
    refine .whileBelow_step (by omega) ?_ hpos (ih hrest (by omega) hbound _)
    apply Reads.bind_pure before.push
    exact ModuleDraft.reads_descriptor hentry entry.2 haligned (by omega)

theorem reads_modules {modules : List (ModuleDraft × Option UInt16)}
    (named : ∀ entry ∈ modules, entry.1.Named) {start : Nat} (haligned : start % 4 = 0)
    (hbound : start + (moduleList modules).size < 2 ^ 32) :
    Reads (DebugStream.readModules (moduleList modules).size true) start (moduleList modules)
      (writtenModules modules) := by
  refine .position (.bind_empty (reads_moduleList named haligned hbound #[]) (.position ?_))
  rw [if_neg (not_not.mpr rfl), Array.empty_append]
  exact .pure _

/-! ### Behind the modules -/

/-- Parts of no size take no bytes. -/
theorem reads_skipAll {sizes : List UInt32} (hsizes : ∀ size ∈ sizes, size = 0) (start : Nat) :
    Reads (DebugStream.skipAll sizes) start .empty () := by
  induction sizes with
  | nil => exact .pure ()
  | cons size sizes ih =>
    obtain ⟨rfl, hrest⟩ := List.forall_mem_cons.mp hsizes
    exact .bind_empty (.skip rfl) (ih hrest)

/-- The list of streams, of which the seventh is that of the token remap table. -/
def streamList (remap : Option UInt16) : ByteArray :=
  match remap with
  | none => .empty
  | some remap => Bytes.concat ((List.range 11).map fun index =>
      Bytes.uint16 (if index = 6 then remap else 0xffff))

theorem size_streamList (remap : UInt16) : (streamList (some remap)).size = 22 := by
  have hsizes : ∀ piece ∈ (List.range 11).map fun index =>
      Bytes.uint16 (if index = 6 then remap else 0xffff), piece.size = 2 := by
    intro piece member
    obtain ⟨index, -, rfl⟩ := List.mem_map.mp member
    exact Bytes.size_uint16 _
  rw [streamList, Bytes.size_concat_of_size hsizes]
  rfl

theorem reads_streamList (remap : UInt16) (start : Nat) :
    Reads (DebugStream.readStreamList 22) start (streamList (some remap))
      (streamOfField remap) := by
  have hfields : Reads (Reader.times (List.range 11).length Reader.uint16) start
      (streamList (some remap))
      ((List.range 11).map fun index => if index = 6 then remap else 0xffff) :=
    .times (fun _ _ => True) (fun _ _ _ _ => ⟨.uint16 _, trivial⟩) trivial
  refine .position (.bind_empty hfields (.bind_empty (.seek ?_) (.pure _)))
  rw [size_streamList]
  rfl

/-! ### The whole stream -/

/-- The stream in front of the modules. -/
def debugHeaderBytes (draft : ImageDraft) (moduleListSize streamListSize : UInt32) : ByteArray :=
  Bytes.uint32s [0xffffffff, 19990903, draft.debugAge]
    ++ (Bytes.concat ([0xffff, 0x8e00, 0xffff, 0, 0xffff, 0].map Bytes.uint16)
    ++ (Bytes.uint32s [moduleListSize, 0, 0, 0, 0, 0, streamListSize, 0]
    ++ (Bytes.uint16 0 ++ (Bytes.uint16 0x14c ++ Bytes.uint32 0))))

theorem reads_debugHeader (draft : ImageDraft) (moduleListSize streamListSize : UInt32) :
    Reads DebugStreamHeader.read 0 (draft.debugHeaderBytes moduleListSize streamListSize)
      { age := draft.debugAge, moduleListSize, sectionContributionSize := 0, sectionMapSize := 0,
        fileInfoSize := 0, typeServerMapSize := 0, streamListSize, editAndContinueSize := 0 } := by
  unfold DebugStreamHeader.read debugHeaderBytes
  simp only [List.map_cons, List.map_nil, Bytes.concat_cons, Bytes.concat_nil, Bytes.uint32s_cons,
    Bytes.uint32s_nil, ByteArray.append_empty, ByteArray.append_assoc]
  refine .bind (.int32 _) (.bind (.uint32 _) (.bind (.uint32 _) ?_))
  refine .bind (.uint16 _) (.bind (.uint16 _) (.bind (.uint16 _) ?_))
  refine .bind (.uint16 _) (.bind (.uint16 _) (.bind (.uint16 _) ?_))
  refine .bind (.uint32 _) (.bind (.uint32 _) (.bind (.uint32 _) (.bind (.uint32 _) ?_)))
  refine .bind (.uint32 _) (.bind (.uint32 _) (.bind (.uint32 _) (.bind (.uint32 _) ?_)))
  exact .bind (.uint16 _) (.bind (.uint16 _) (.bind_empty (.uint32 _) (.pure _)))

theorem debugStream_eq (draft : ImageDraft) (streams : List (Option UInt16))
    (remap : Option UInt16) :
    draft.debugStream streams remap
      = draft.debugHeaderBytes (UInt32.ofNat (moduleList (draft.modules.zip streams)).size)
          (UInt32.ofNat (streamList remap).size)
        ++ (moduleList (draft.modules.zip streams) ++ streamList remap) := by
  unfold debugStream debugHeaderBytes
  simp only [ByteArray.append_assoc]
  cases remap <;> rfl

/-- The debug information stream is read back. -/
theorem reads_debugStream {draft : ImageDraft}
    (named : ∀ descriptor ∈ draft.modules, descriptor.Named)
    (streams : List (Option UInt16)) (remap : Option UInt16)
    (hsize : (draft.debugStream streams remap).size < 2 ^ 32) :
    Reads (DebugStream.read true) 0 (draft.debugStream streams remap)
      { age := draft.debugAge
        modules := writtenModules (draft.modules.zip streams)
        tokenRemapStream := remap.bind streamOfField } := by
  rw [debugStream_eq] at hsize ⊢
  generalize hzip : draft.modules.zip streams = modules at hsize ⊢
  have hnamed : ∀ entry ∈ modules, entry.1.Named := by
    rintro ⟨descriptor, stream⟩ member
    rw [← hzip] at member
    exact named descriptor (List.of_mem_zip member).1
  have hheader : (draft.debugHeaderBytes (UInt32.ofNat (moduleList modules).size)
      (UInt32.ofNat (streamList remap).size)).size = 64 := by
    simp [debugHeaderBytes]
  rw [ByteArray.size_append, ByteArray.size_append, hheader] at hsize
  have hmodules : (UInt32.ofNat (moduleList modules).size).toNat = (moduleList modules).size := by
    rw [UInt32.toNat_ofNat', Nat.mod_eq_of_lt (by omega)]
  refine .bind (draft.reads_debugHeader _ _) ?_
  rw [hheader, hmodules]
  refine .bind (reads_modules hnamed (by decide) (by omega)) ?_
  refine .empty_bind (reads_skipAll ?_ _) ?_
  · simp [DebugStreamHeader.skippedSizes]
  -- without a list, its size says so
  cases remap with
  | none => exact .bind_empty (.pure none) (.pure _)
  | some remap =>
    have hlist : (UInt32.ofNat (streamList (some remap)).size).toNat = 22 := by
      rw [size_streamList]
      rfl
    have hnonzero : UInt32.ofNat (streamList (some remap)).size ≠ 0 := by
      rw [size_streamList]
      decide
    dsimp only
    rw [if_neg hnonzero, hlist]
    exact .bind_empty (reads_streamList remap _) (.pure _)

end ImageDraft

end ManagedPdb
