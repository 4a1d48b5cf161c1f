import Mathlib
import DocumentTables.Cache.Memory
import DocumentTables.Proofs.StoreFiles
import DocumentTables.Sample

/-!
# A store on disk against a store in memory

The same calls are made on a store on disk and on one in memory.  As long as nobody else touches the
files both give the same answers, hold the same number of entries and count the same.  The store on
disk may be opened again at any time, by another process, which the store in memory does not notice.

**Results.**

* `MemoryCache.names_replace_perm`, `MemoryCache.names_filter`: the names of the entries of a store
  in memory.
* `Mirrors.call`: what one call keeps.
* `DiskSide.observe_eq`: what a run of calls shows.
-/

namespace DocumentTables

open FileTree DiskCache

/-! ## Calls and what they show -/

/-- A call on a store.  To open it again matters to a store on disk only. -/
inductive StoreCall where
  | get (key : PrimaryKey)
  | put (key : PrimaryKey) (doc : Document)
  | remove (key : PrimaryKey)
  | clear
  | reopen (process : Nat)

/-- What shows after a call: its answer, the number of entries, and what was counted since the store
was opened. -/
structure Observation where
  answer : Except CacheError (Option Document)
  entries : Nat
  counted : CacheCounters

namespace CacheCounters

/-- What was counted on top of other counters. -/
def add (a b : CacheCounters) : CacheCounters :=
  ⟨a.hits + b.hits, a.misses + b.misses, a.evictions + b.evictions⟩

/-- By how much counters have grown. -/
def since (now before : CacheCounters) : CacheCounters :=
  ⟨now.hits - before.hits, now.misses - before.misses, now.evictions - before.evictions⟩

theorem since_add
    (a b : CacheCounters) :
    (a.add b).since a = b := by
  simp [since, add]

end CacheCounters

/-- A store on disk, with the files. -/
structure DiskSide where
  store : DiskCache
  files : FileTree

namespace DiskSide

/-- A call on a store below a cache root. -/
def call (root table : String) (s : DiskSide) :
    StoreCall → Except CacheError (Option Document) × DiskSide
  | .get key =>
      let (answer, store) := s.store.get s.files key
      (answer, { s with store := store })
  | .put key doc =>
      let (result, store, files) := s.store.put s.files key doc
      (result.map fun _ => none, ⟨store, files⟩)
  | .remove key =>
      let (result, store, files) := s.store.remove s.files key
      (result.map fun _ => none, ⟨store, files⟩)
  | .clear =>
      let (result, files) := s.store.clear s.files
      (result.map fun _ => none, { s with files := files })
  | .reopen process =>
      (.ok none, { s with store := DiskCache.ofTable root table process })

/-- What a run of calls shows. -/
def observe (root table : String) : DiskSide → List StoreCall → List Observation
  | _, [] => []
  | s, call :: calls =>
      let (answer, s) := s.call root table call
      ⟨answer, s.store.size s.files, s.store.counters⟩ :: observe root table s calls

end DiskSide

/-- A store in memory, with its counters when the store on disk was last opened. -/
structure MemorySide where
  store : MemoryCache
  opened : CacheCounters

namespace MemorySide

/-- A call on a store in memory. -/
def call (s : MemorySide) : StoreCall → Option Document × MemorySide
  | .get key =>
      let (answer, store) := s.store.get key
      (answer, { s with store := store })
  | .put key doc => (none, { s with store := s.store.put key doc })
  | .remove key => (none, { s with store := s.store.remove key })
  | .clear => (none, { s with store := s.store.clear })
  | .reopen _ => (none, { s with opened := s.store.counters })

/-- What a run of calls shows. -/
def observe : MemorySide → List StoreCall → List Observation
  | _, [] => []
  | s, call :: calls =>
      let (answer, s) := s.call call
      ⟨.ok answer, s.store.size, s.store.counters.since s.opened⟩ :: observe s calls

end MemorySide

/-! ## What calls use -/

/-- A document that its text denotes: its numbers are whole and it is not nested too deep. -/
structure Storable (doc : Document) : Prop where
  integral : doc.Integral
  sorted : doc.Sorted
  shallow : doc.Shallow

theorem Storable.ofText?_text
    {doc : Document} (h : Storable doc) :
    Document.ofText? (Document.text doc) = some doc := by
  rw [Document.ofText?_text h.integral h.sorted, if_pos h.shallow]

/-- A call that uses some of the given keys and processes. -/
def StoreCall.Uses (keys : PrimaryKey → Prop) (processes : Nat → Prop) : StoreCall → Prop
  | .get key => keys key
  | .put key doc => keys key ∧ Storable doc
  | .remove key => keys key
  | .clear => True
  | .reopen process => processes process

/-! ## Names of entries in memory -/

namespace MemoryCache

variable {entries : List (PrimaryKey × Document)} {key : PrimaryKey}

/-- The names of the entries, when keys have names. -/
def names (name : PrimaryKey → String) (entries : List (PrimaryKey × Document)) : List String :=
  entries.map fun entry => name entry.1

/-- An entry after a document was put was there before, or holds the document for a key that was
there or is the new one. -/
theorem mem_replace
    {doc : Document} {entry : PrimaryKey × Document} (h : entry ∈ replace entries key doc) :
    entry ∈ entries ∨
      entry.2 = doc ∧ (entry.1 = key ∨ ∃ other ∈ entries, other.1 = entry.1) := by
  induction entries with
  | nil =>
      rw [replace, List.mem_singleton] at h
      exact .inr ⟨by rw [h], .inl (by rw [h])⟩
  | cons head entries ih =>
      obtain ⟨k, d⟩ := head
      rw [replace] at h
      split at h
      · rcases List.mem_cons.mp h with rfl | h
        · exact .inr ⟨rfl, .inr ⟨(k, d), List.mem_cons_self, rfl⟩⟩
        · exact .inl (List.mem_cons_of_mem _ h)
      · rcases List.mem_cons.mp h with rfl | h
        · exact .inl List.mem_cons_self
        · rcases ih h with hold | ⟨hdoc, hnew | ⟨other, hother, hsame⟩⟩
          · exact .inl (List.mem_cons_of_mem _ hold)
          · exact .inr ⟨hdoc, .inl hnew⟩
          · exact .inr ⟨hdoc, .inr ⟨other, List.mem_cons_of_mem _ hother, hsame⟩⟩

theorem exists_entry_of_find?
    {c : MemoryCache} {doc : Document} (h : c.find? key = some doc) :
    ∃ entry ∈ c.entries, entry.2 = doc := by
  rw [find?, Option.map_eq_some_iff] at h
  obtain ⟨entry, hfind, hdoc⟩ := h
  exact ⟨entry, List.mem_of_find?_eq_some hfind, hdoc⟩

/-- After a document was put, the name of its key comes before the other ones. -/
theorem names_replace_perm
    {name : PrimaryKey → String} (doc : Document)
    (halike : ∀ entry ∈ entries, entry.1.alike key = true ↔ name entry.1 = name key)
    (hnodup : (names name entries).Nodup) :
    (names name (replace entries key doc)).Perm
      (name key :: (names name entries).filter (· ≠ name key)) := by
  induction entries with
  | nil =>
      exact List.Perm.refl _
  | cons entry entries ih =>
      obtain ⟨k, d⟩ := entry
      obtain ⟨hk, hrest⟩ := List.forall_mem_cons.mp halike
      obtain ⟨hfresh, hnodup⟩ : name k ∉ names name entries ∧ (names name entries).Nodup :=
        List.nodup_cons.mp hnodup
      rw [replace]
      split
      · next hkey =>
          have hname : name k = name key := hk.mp hkey
          have hfilter : (names name entries).filter (· ≠ name key) = names name entries := by
            rw [List.filter_eq_self]
            intro other hmem
            simp only [ne_eq, decide_not, Bool.not_eq_eq_eq_not, Bool.not_true,
              decide_eq_false_iff_not]
            rintro rfl
            exact hfresh (hname ▸ hmem)
          rw [names, List.map_cons, names, List.map_cons,
            List.filter_cons_of_neg (by simpa using hname)]
          rw [names] at hfilter
          rw [hfilter, hname]
      · next hkey =>
          have hname : name k ≠ name key := fun hname => hkey (hk.mpr hname)
          rw [names, List.map_cons, names, List.map_cons,
            List.filter_cons_of_pos (by simpa using hname)]
          exact ((ih hrest hnodup).cons _).trans (List.Perm.swap _ _ _)

/-- To remove a key is to remove its name. -/
theorem names_filter
    {name : PrimaryKey → String}
    (halike : ∀ entry ∈ entries, entry.1.alike key = true ↔ name entry.1 = name key) :
    names name (entries.filter fun entry => !entry.1.alike key) =
      (names name entries).filter (· ≠ name key) := by
  rw [names, names, List.filter_map]
  congr 1
  refine List.filter_congr fun entry hentry => ?_
  have hiff := halike entry hentry
  by_cases hname : name entry.1 = name key
  · simp [hname, hiff.mpr hname]
  · simp [hname, Bool.eq_false_iff.mpr (mt hiff.mp hname)]

end MemoryCache

/-! ## What one call keeps -/

/-- A store on disk and one in memory that hold the same documents.  Each file in the directory is
that of an entry in memory. -/
structure Mirrors (full : FileTree) (directory : String) (home : Location)
    (keys : PrimaryKey → Prop) (processes : Nat → Prop) (s : DiskSide) (m : MemorySide) : Prop where
  directory : s.store.directory = directory
  process : processes s.store.process
  temporaries : s.store.temporaries < Nat.pow 2 64
  counted : m.store.counters = m.opened.add s.store.counters
  tree : Store full home s.files
  entries : ∀ entry ∈ m.store.entries, keys entry.1 ∧ Storable entry.2
  files : ∀ key, keys key → s.files.find? (home ++ [entryName key]) =
    (m.store.find? key).map fun doc => .file (Document.text doc).toUTF8
  names : (s.files.namesIn home).Perm (MemoryCache.names entryName m.store.entries)
  nodup : (s.files.namesIn home).Nodup

namespace Mirrors

variable {full : FileTree} {directory root table : String} {home : Location}
  {keys : PrimaryKey → Prop} {processes : Nat → Prop} {s : DiskSide} {m : MemorySide}
  {key : PrimaryKey} {doc : Document}

/-- Both stores have the same number of entries. -/
theorem size
    (h : Mirrors full directory home keys processes s m) (hsite : Site full directory home) :
    s.store.size s.files = m.store.size := by
  have hsite' : Site full s.store.directory home := h.directory ▸ hsite
  rw [size_eq hsite' h.tree, List.filter_eq_self.mpr, h.names.length_eq, MemoryCache.names,
    List.length_map]
  · rfl
  · intro name hname
    obtain ⟨entry, -, rfl⟩ := List.mem_map.mp (h.names.mem_iff.mp hname)
    rw [extension?_entryName]
    rfl

/-- Every path that a store names fits. -/
def AllFit (directory : String) (keys : PrimaryKey → Prop) (processes : Nat → Prop) : Prop :=
  ∀ key, keys key → ∀ process, processes process → ∀ temporaries < Nat.pow 2 64,
    Fits directory (temporaryName process temporaries key)

theorem alike_iff
    (h : Mirrors full directory home keys processes s m) (hkeys : Separate keys)
    (hkey : keys key) :
    ∀ entry ∈ m.store.entries,
      entry.1.alike key = true ↔ entryName entry.1 = entryName key := by
  exact fun entry hentry => hkeys.alike_iff (h.entries entry hentry).1 hkey

theorem fits_entry
    (h : Mirrors full directory home keys processes s m) (hfits : AllFit directory keys processes)
    (hkey : keys key) :
    Fits s.store.directory (entryName key) := by
  rw [h.directory]
  exact fits_entryName (hfits key hkey _ h.process 0 (by decide))

/-- Both stores give the same answer. -/
theorem get
    (h : Mirrors full directory home keys processes s m) (hsite : Site full directory home)
    (hfits : AllFit directory keys processes) (hkey : keys key) :
    (s.call root table (.get key)).1 = .ok (m.call (.get key)).1 ∧
      Mirrors full directory home keys processes (s.call root table (.get key)).2
        (m.call (.get key)).2 := by
  have hsite' : Site full s.store.directory home := h.directory ▸ hsite
  have hfile := h.files key hkey
  cases hfind : m.store.find? key with
  | none =>
      rw [hfind] at hfile
      have hdisk := get_absent hsite' h.tree (h.fits_entry hfits hkey) hfile
      have hmemory : m.store.get key =
          (none, { m.store with counters := m.store.counters.miss }) := by
        rw [MemoryCache.get, hfind]
      rw [DiskSide.call, hdisk, MemorySide.call, hmemory]
      refine ⟨rfl, ⟨h.directory, h.process, h.temporaries, ?_, h.tree, h.entries, h.files, h.names,
        h.nodup⟩⟩
      rw [h.counted]
      rfl
  | some doc =>
      rw [hfind] at hfile
      obtain ⟨entry, hentry, rfl⟩ := MemoryCache.exists_entry_of_find? hfind
      have hdisk := get_document hsite' h.tree (h.fits_entry hfits hkey) hfile
        (h.entries entry hentry).2.ofText?_text
      have hmemory : m.store.get key =
          (some entry.2, { m.store with counters := m.store.counters.hit }) := by
        rw [MemoryCache.get, hfind]
      rw [DiskSide.call, hdisk, MemorySide.call, hmemory]
      refine ⟨rfl, ⟨h.directory, h.process, h.temporaries, ?_, h.tree, h.entries, h.files, h.names,
        h.nodup⟩⟩
      rw [h.counted]
      rfl

/-- No entry has the name of a temporary file. -/
theorem temporary_fresh
    (h : Mirrors full directory home keys processes s m) (process temporaries : Nat)
    (key : PrimaryKey) :
    temporaryName process temporaries key ∉ s.files.namesIn home := by
  intro hmem
  obtain ⟨entry, -, hname⟩ := List.mem_map.mp (h.names.mem_iff.mp hmem)
  exact entryName_ne_temporaryName entry.1 key process temporaries hname

/-- Both stores hold the document. -/
theorem put
    (h : Mirrors full directory home keys processes s m) (hsite : Site full directory home)
    (hrenewable : Renewable full directory) (hkeys : Separate keys)
    (hfits : AllFit directory keys processes) (hkey : keys key) (hdoc : Storable doc) :
    (s.call root table (.put key doc)).1 = .ok (m.call (.put key doc)).1 ∧
      Mirrors full directory home keys processes (s.call root table (.put key doc)).2
        (m.call (.put key doc)).2 := by
  have hsite' : Site full s.store.directory home := h.directory ▸ hsite
  have hrenewable' : Renewable full s.store.directory := h.directory ▸ hrenewable
  have hfit : Fits s.store.directory
      (temporaryName s.store.process s.store.temporaries key) := by
    rw [h.directory]
    exact hfits key hkey _ h.process _ h.temporaries
  obtain ⟨made, hmade, hsame, hput⟩ := put_renewable hsite' h.tree hrenewable' doc hfit
  have hfresh := h.temporary_fresh s.store.process s.store.temporaries key
  rw [← hsame.namesIn] at hfresh
  have hnames := namesIn_published (entryName key) (Document.text doc).toUTF8 hfresh
  rw [hsame.namesIn] at hnames
  rw [DiskSide.call, hput, MemorySide.call]
  refine ⟨rfl, ⟨h.directory, h.process, Nat.mod_lt _ (by decide), h.counted,
    .inl (present_published hmade _ _ _), ?_, ?_, ?_, ?_⟩⟩
  · intro entry hentry
    rcases MemoryCache.mem_replace hentry with hold | ⟨hnew, hcase⟩
    · exact h.entries entry hold
    · refine ⟨?_, hnew ▸ hdoc⟩
      rcases hcase with hcase | ⟨other, hother, hcase⟩
      · exact hcase ▸ hkey
      · exact hcase ▸ (h.entries other hother).1
  · intro k hk
    have hmemory : (m.store.put key doc).find? k =
        if key.alike k then some doc else m.store.find? k :=
      congrArg (fun map => map.find k) (MemoryCache.contents_put m.store key doc)
    simp only [find?_published, hmemory]
    by_cases hname : entryName k = entryName key
    · rw [if_pos hname, if_pos ((hkeys.alike_iff hkey hk).mpr hname.symm)]
      rfl
    · rw [if_neg hname, if_neg (entryName_ne_temporaryName k key _ _),
        if_neg (fun halike => hname ((hkeys.alike_iff hkey hk).mp halike).symm), hsame.find?,
        h.files k hk]
  · simp only [hnames]
    refine List.Perm.trans ?_ (MemoryCache.names_replace_perm doc (h.alike_iff hkeys hkey)
      (h.names.nodup_iff.mp h.nodup)).symm
    exact (h.names.filter _).cons _
  · simp only [hnames]
    refine List.nodup_cons.mpr ⟨?_, h.nodup.filter _⟩
    simp

/-- Both stores forget the document, and count it if there is one. -/
theorem remove
    (h : Mirrors full directory home keys processes s m) (hsite : Site full directory home)
    (hkeys : Separate keys) (hfits : AllFit directory keys processes) (hkey : keys key) :
    (s.call root table (.remove key)).1 = .ok (m.call (.remove key)).1 ∧
      Mirrors full directory home keys processes (s.call root table (.remove key)).2
        (m.call (.remove key)).2 := by
  have hsite' : Site full s.store.directory home := h.directory ▸ hsite
  have hfile := h.files key hkey
  cases hfind : m.store.find? key with
  | none =>
      rw [hfind] at hfile
      have hdisk := remove_absent hsite' h.tree (h.fits_entry hfits hkey) hfile
      have hmemory : m.store.remove key = m.store := by
        rw [MemoryCache.remove, hfind]
      rw [DiskSide.call, hdisk, MemorySide.call, hmemory]
      exact ⟨rfl, h⟩
  | some doc =>
      rw [hfind] at hfile
      have hdisk := remove_present hsite' h.tree (h.fits_entry hfits hkey) hfile
      have hcontents : ∀ k, (m.store.remove key).find? k =
          if key.alike k then none else m.store.find? k := fun k =>
        congrArg (fun map => map.find k) (MemoryCache.contents_remove m.store key)
      have hmemory : m.store.remove key =
          { entries := m.store.entries.filter fun entry => !entry.1.alike key,
            counters := m.store.counters.evict } := by
        rw [MemoryCache.remove, hfind]
      have hpresent : Present full home (s.files.erase (home ++ [entryName key])) := by
        rcases h.tree with htree | htree
        · exact htree.erase _
        · rw [htree.find?_eq_none (List.prefix_append home _)] at hfile
          cases hfile
      rw [DiskSide.call, hdisk, MemorySide.call]
      refine ⟨rfl, ⟨h.directory, h.process, h.temporaries, ?_, .inl hpresent, ?_, ?_, ?_, ?_⟩⟩
      · rw [hmemory, h.counted]
        rfl
      · rw [hmemory]
        exact fun entry hentry => h.entries entry (List.mem_of_mem_filter hentry)
      · intro k hk
        simp only [hcontents]
        by_cases hname : entryName k = entryName key
        · rw [if_pos ((hkeys.alike_iff hkey hk).mpr hname.symm), hname,
            find?_erase_self _ (by simp)]
          rfl
        · rw [if_neg (fun halike => hname ((hkeys.alike_iff hkey hk).mp halike).symm),
            find?_erase_of_ne _ (child_ne_child home hname), h.files k hk]
      · rw [hmemory]
        simp only [namesIn_erase]
        rw [MemoryCache.names_filter (h.alike_iff hkeys hkey)]
        exact h.names.filter _
      · simp only [namesIn_erase]
        exact h.nodup.filter _

/-- Both stores forget all documents. -/
theorem clear
    (h : Mirrors full directory home keys processes s m) (hsite : Site full directory home)
    (hrenewable : Renewable full directory) :
    (s.call root table .clear).1 = .ok (m.call .clear).1 ∧
      Mirrors full directory home keys processes (s.call root table .clear).2
        (m.call .clear).2 := by
  have hsite' : Site full s.store.directory home := h.directory ▸ hsite
  have hrenewable' : Renewable full s.store.directory := h.directory ▸ hrenewable
  have hok := clear_renewable hsite' h.tree hrenewable'
  obtain ⟨htree, hnames⟩ := clear_cases hsite' h.tree
  rw [DiskSide.call, MemorySide.call]
  generalize s.store.clear s.files = cleared at hok htree hnames
  obtain ⟨result, files⟩ := cleared
  simp only at hok htree hnames
  subst hok
  refine ⟨rfl, ⟨h.directory, h.process, h.temporaries, h.counted, htree, ?_, ?_, ?_, ?_⟩⟩
  · exact fun entry hentry => absurd hentry List.not_mem_nil
  · intro k hk
    have hnone : ¬ (files.find? (home ++ [entryName k])).isSome = true := by
      rw [← mem_namesIn_iff_find?, hnames]
      exact List.not_mem_nil
    simpa [MemoryCache.clear, MemoryCache.find?] using hnone
  · simp only [hnames]
    exact List.Perm.refl _
  · simp only [hnames]
    exact List.nodup_nil

/-- The files belong to the store that is opened, too. -/
theorem reopen
    (h : Mirrors full (FilePath.join root (Text.fileSafe table)) home keys processes s m)
    {process : Nat} (hprocess : processes process) :
    (s.call root table (.reopen process)).1 = .ok (m.call (.reopen process)).1 ∧
      Mirrors full (FilePath.join root (Text.fileSafe table)) home keys processes
        (s.call root table (.reopen process)).2 (m.call (.reopen process)).2 := by
  exact ⟨rfl, rfl, hprocess, by simp [DiskSide.call, DiskCache.ofTable], rfl, h.tree, h.entries,
    h.files, h.names, h.nodup⟩

/-- A call keeps two stores alike and has the same answer in both. -/
theorem call
    (h : Mirrors full (FilePath.join root (Text.fileSafe table)) home keys processes s m)
    (hsite : Site full (FilePath.join root (Text.fileSafe table)) home)
    (hrenewable : Renewable full (FilePath.join root (Text.fileSafe table)))
    (hkeys : Separate keys)
    (hfits : AllFit (FilePath.join root (Text.fileSafe table)) keys processes)
    {call : StoreCall} (huses : call.Uses keys processes) :
    (s.call root table call).1 = .ok (m.call call).1 ∧
      Mirrors full (FilePath.join root (Text.fileSafe table)) home keys processes
        (s.call root table call).2 (m.call call).2 := by
  cases call with
  | get key => exact h.get hsite hfits huses
  | put key doc => exact h.put hsite hrenewable hkeys hfits huses.1 huses.2
  | remove key => exact h.remove hsite hkeys hfits huses
  | clear => exact h.clear hsite hrenewable
  | reopen process => exact h.reopen huses

/-- Two stores that hold the same show the same along a run. -/
theorem observe
    (h : Mirrors full (FilePath.join root (Text.fileSafe table)) home keys processes s m)
    (hsite : Site full (FilePath.join root (Text.fileSafe table)) home)
    (hrenewable : Renewable full (FilePath.join root (Text.fileSafe table)))
    (hkeys : Separate keys)
    (hfits : AllFit (FilePath.join root (Text.fileSafe table)) keys processes)
    {calls : List StoreCall} (huses : ∀ call ∈ calls, call.Uses keys processes) :
    s.observe root table calls = m.observe calls := by
  induction calls generalizing s m with
  | nil =>
      rfl
  | cons call calls ih =>
      obtain ⟨hcall, hrest⟩ := List.forall_mem_cons.mp huses
      obtain ⟨hanswer, hafter⟩ := h.call hsite hrenewable hkeys hfits hcall
      rw [DiskSide.observe, MemorySide.observe]
      simp only [hanswer, hafter.size hsite, hafter.counted, CacheCounters.since_add]
      rw [ih hafter hrest]

end Mirrors

/-! ## A store below an empty root -/

section

variable {files : FileTree} {loc : Location} {root table : String} {keys : PrimaryKey → Prop}
  {processes : Nat → Prop} {process : Nat} {calls : List StoreCall}

/-- No path that a store names is too long: neither that of its directory nor those of its temporary
files, which are longer than those of its entries. -/
structure PathsShort (directory : String) (keys : PrimaryKey → Prop) (processes : Nat → Prop) :
    Prop where
  own : directory.utf8ByteSize ≤ maxPathBytes
  temporary : ∀ key, keys key → ∀ process, processes process → ∀ temporaries < Nat.pow 2 64,
    (FilePath.join directory (temporaryName process temporaries key)).utf8ByteSize ≤ maxPathBytes

theorem PathsShort.allFit
    {directory : String} (h : PathsShort directory keys processes)
    (hprocesses : ∀ process, processes process → process < Nat.pow 2 32) :
    Mirrors.AllFit directory keys processes := by
  intro key hkey process hprocess temporaries htemporaries
  have hbytes := utf8ByteSize_temporaryName (hprocesses process hprocess) htemporaries key
  exact ⟨h.temporary key hkey process hprocess temporaries htemporaries,
    Nat.le_trans hbytes (by decide)⟩

/-- Below an empty root a store on disk starts like one in memory. -/
theorem EmptyRoot.mirrors
    (hroot : EmptyRoot files root loc)
    (htable : (Text.fileSafe table).utf8ByteSize ≤ maxNameBytes)
    (hshort : (FilePath.join root (Text.fileSafe table)).utf8ByteSize ≤ maxPathBytes)
    (hrenewable : Text.fileSafe table = "" → Renewable files (FilePath.join root ""))
    (hprocess : processes process) :
    ∃ full home, Site full (FilePath.join root (Text.fileSafe table)) home ∧
      Renewable full (FilePath.join root (Text.fileSafe table)) ∧
      Mirrors full (FilePath.join root (Text.fileSafe table)) home keys processes
        ⟨DiskCache.ofTable root table process, files⟩ ⟨.empty, .zero⟩ := by
  have hstart : ∀ {full home}, (∀ name, files.find? (home ++ [name]) = none) →
      Store full home files →
      Mirrors full (FilePath.join root (Text.fileSafe table)) home keys processes
        ⟨DiskCache.ofTable root table process, files⟩ ⟨.empty, .zero⟩ := by
    intro full home hnone hstore
    have hnames := namesIn_eq_nil hnone
    refine ⟨rfl, hprocess, Nat.pow_pos (by decide), rfl, hstore, ?_, ?_, ?_, ?_⟩
    · exact fun entry hentry => absurd hentry List.not_mem_nil
    · exact fun key _ => hnone _
    · simp only [hnames]
      exact List.Perm.refl _
    · simp only [hnames]
      exact List.nodup_nil
  by_cases hname : Text.fileSafe table = ""
  · rw [hname] at hshort hstart ⊢
    obtain ⟨hsite, hpresent⟩ := Site.of_root hroot hshort
    refine ⟨files, loc, hsite, hrenewable hname, hstart (fun name => ?_) (.inl hpresent)⟩
    exact hroot.find?_eq_none (isBelow_child loc name)
  · have hplain := Text.plain_fileSafe hname
    have hvacant := hroot.vacant (Text.fileSafe table)
    refine ⟨_, _, Site.of_name hvacant hplain htable hshort,
      Renewable.of_name hvacant hplain htable hshort,
      hstart (fun name => ?_) (.inr hvacant.missing)⟩
    exact hvacant.find?_eq_none (List.prefix_append _ [name])

/-- What one process does not find below an empty root, and puts there, another one finds. -/
theorem EmptyRoot.get_put
    (hroot : EmptyRoot files root loc)
    (htable : (Text.fileSafe table).utf8ByteSize ≤ maxNameBytes)
    (hkeys : Separate keys) {key : PrimaryKey} (hkey : keys key) {doc : Document}
    (hdoc : Storable doc) (hprocess : processes process) {other : Nat} (hother : processes other)
    (hprocesses : ∀ process, processes process → process < Nat.pow 2 32)
    (hshort : PathsShort (FilePath.join root (Text.fileSafe table)) keys processes)
    (hrenewable : Text.fileSafe table = "" → Renewable files (FilePath.join root "")) :
    ((DiskCache.ofTable root table process).get files key).1 = .ok none ∧
      ((DiskCache.ofTable root table other).get
        (((DiskCache.ofTable root table process).get files key).2.put files key doc).2.2 key).1 =
        .ok (some doc) := by
  obtain ⟨full, home, hsite, hrenew, hstart⟩ :=
    EmptyRoot.mirrors hroot htable hshort.own hrenewable hprocess
  have hfits := hshort.allFit hprocesses
  have hget : (StoreCall.get key).Uses keys processes := hkey
  have hput : (StoreCall.put key doc).Uses keys processes := ⟨hkey, hdoc⟩
  have hreopen : (StoreCall.reopen other).Uses keys processes := hother
  obtain ⟨hasked, hmirrors⟩ := hstart.call hsite hrenew hkeys hfits hget
  obtain ⟨-, hmirrors⟩ := hmirrors.call hsite hrenew hkeys hfits hput
  obtain ⟨-, hmirrors⟩ := hmirrors.call hsite hrenew hkeys hfits hreopen
  obtain ⟨hserved, -⟩ := hmirrors.call hsite hrenew hkeys hfits hget
  simp only [DiskSide.call] at hasked hserved
  rw [hasked, hserved]
  simp [MemorySide.call, MemoryCache.get, MemoryCache.put, MemoryCache.find?, MemoryCache.empty,
    MemoryCache.replace]

/-- A store on disk below an empty root shows in every run what a store in memory shows: the same
answers, which are no errors, the same number of entries, and the same counters since it was opened.
No path must be too long for this, and a root that is the store's directory itself must be one that
can be removed and made again. -/
theorem DiskSide.observe_eq
    (hroot : EmptyRoot files root loc)
    (htable : (Text.fileSafe table).utf8ByteSize ≤ maxNameBytes)
    (hkeys : Separate keys)
    (hcalls : ∀ call ∈ calls, call.Uses keys processes)
    (hprocess : processes process)
    (hprocesses : ∀ process, processes process → process < Nat.pow 2 32)
    (hshort : PathsShort (FilePath.join root (Text.fileSafe table)) keys processes)
    (hrenewable : Text.fileSafe table = "" → Renewable files (FilePath.join root "")) :
    DiskSide.observe root table ⟨DiskCache.ofTable root table process, files⟩ calls =
      MemorySide.observe ⟨.empty, .zero⟩ calls := by
  obtain ⟨full, home, hsite, hrenew, hmirrors⟩ :=
    EmptyRoot.mirrors hroot htable hshort.own hrenewable hprocess
  exact hmirrors.observe hsite hrenew hkeys (hshort.allFit hprocesses) hcalls

end

/-! ## Two layers -/

/-- A tree with one directory at the top. -/
def cacheFiles : FileTree :=
  FileTree.empty.put ["c"] .directory

/-- Two layers are put, read, put again, removed, read by another process and cleared. -/
def layerCalls : List StoreCall :=
  [.put (Sample.singleKey "a") (Sample.layer "a" true),
    .put (Sample.singleKey "b") (Sample.layer "b" true), .get (Sample.singleKey "a"),
    .put (Sample.singleKey "a") (Sample.layer "a" false), .remove (Sample.singleKey "b"),
    .get (Sample.singleKey "b"), .reopen 8, .get (Sample.singleKey "a"), .clear,
    .get (Sample.singleKey "a")]

/-- The keys of the two layers. -/
def LayerKey (key : PrimaryKey) : Prop :=
  key = Sample.singleKey "a" ∨ key = Sample.singleKey "b"

theorem emptyRoot_cacheFiles :
    EmptyRoot cacheFiles "c" ["c"] := by
  refine ⟨by rfl, ?_⟩
  rw [nodesBelow]
  simp [cacheFiles, FileTree.empty, FileTree.put, isBelow]

/-- A short text is the readable part of a name as a whole. -/
theorem take_fileStem
    (key : PrimaryKey) (readable : List Char)
    (h : Text.collapse Text.isFileChar key.canonicalText.toList = readable)
    (hshort : readable.length ≤ maxReadable) :
    (fileStem key).toList.take readable.length = readable := by
  rw [fileStem, String.toList_ofList, h, List.take_of_length_le hshort, List.take_left]

/-- The readable parts of the names differ, whatever the digests are. -/
theorem fileStem_ne :
    fileStem (Sample.singleKey "a") ≠ fileStem (Sample.singleKey "b") := by
  have ha := take_fileStem (Sample.singleKey "a") "_id_a_".toList (by decide) (by decide)
  have hb := take_fileStem (Sample.singleKey "b") "_id_b_".toList (by decide) (by decide)
  intro hstem
  rw [hstem] at ha
  have hlists : "_id_a_".toList = "_id_b_".toList := ha.symm.trans hb
  revert hlists
  decide

theorem separate_layerKey :
    Separate LayerKey := by
  constructor
  · rintro key (rfl | rfl)
    · trivial
    · trivial
  · rintro key other (rfl | rfl) (rfl | rfl) hstem
    · exact PrimaryKey.same_refl _
    · exact absurd hstem fileStem_ne
    · exact absurd hstem.symm fileStem_ne
    · exact PrimaryKey.same_refl _

theorem layer_eq
    (id : String) (enabled : Bool) :
    Sample.layer id enabled =
      [("abstract", .string "Fixture layer"), ("enabled", .bool enabled), ("id", .string id),
        ("title", .string ("Layer " ++ id))] := by
  cbv

theorem storable_layer
    (id : String) (enabled : Bool) :
    Storable (Sample.layer id enabled) := by
  have hnames : ["abstract", "enabled", "id", "title"].Pairwise fun a b => a < b := by
    decide +kernel
  rw [layer_eq]
  refine ⟨?_, ⟨?_, ?_⟩, ?_⟩
  · exact ⟨trivial, trivial, trivial, trivial, trivial⟩
  · exact hnames
  · exact ⟨trivial, trivial, trivial, trivial, trivial⟩
  · simp [Document.Shallow, Value.depth, Value.depthFields]
    decide

/-- Names of a store have at most 174 bytes, before which a slash may stand. -/
theorem PathsShort.of_le
    {directory : String} {keys : PrimaryKey → Prop}
    (h : directory.utf8ByteSize + 175 ≤ maxPathBytes) :
    PathsShort directory keys (· < Nat.pow 2 32) := by
  refine ⟨by omega, ?_⟩
  intro key hkey process hprocess temporaries htemporaries
  have hname := utf8ByteSize_temporaryName hprocess htemporaries key
  have hpath : (FilePath.join directory (temporaryName process temporaries key)).utf8ByteSize ≤
      directory.utf8ByteSize + 1 + (temporaryName process temporaries key).utf8ByteSize :=
    (FilePath.utf8ByteSize_join (plain_temporaryName process temporaries key).head?_ne).2
  omega

theorem pathsShort_layers :
    PathsShort (FilePath.join "c" (Text.fileSafe "layers")) LayerKey (· < Nat.pow 2 32) := by
  exact .of_le (by decide)

theorem uses_layerCalls :
    ∀ call ∈ layerCalls, call.Uses LayerKey (· < Nat.pow 2 32) := by
  have ha : LayerKey (Sample.singleKey "a") := .inl rfl
  have hb : LayerKey (Sample.singleKey "b") := .inr rfl
  have hprocess : 8 < Nat.pow 2 32 := by decide
  simp [layerCalls, StoreCall.Uses, ha, hb, hprocess, storable_layer]

theorem DiskSide.observe_eq_layers :
    EmptyRoot cacheFiles "c" ["c"] ∧
      (Text.fileSafe "layers").utf8ByteSize ≤ maxNameBytes ∧ Separate LayerKey ∧
      (∀ call ∈ layerCalls, call.Uses LayerKey (· < Nat.pow 2 32)) ∧ 7 < Nat.pow 2 32 ∧
      PathsShort (FilePath.join "c" (Text.fileSafe "layers")) LayerKey (· < Nat.pow 2 32) ∧
      Text.fileSafe "layers" ≠ "" ∧
      DiskSide.observe "c" "layers" ⟨DiskCache.ofTable "c" "layers" 7, cacheFiles⟩ layerCalls =
        MemorySide.observe ⟨.empty, .zero⟩ layerCalls := by
  have htable : (Text.fileSafe "layers").utf8ByteSize ≤ maxNameBytes := by decide
  have hname : Text.fileSafe "layers" ≠ "" := by decide
  have hprocess : 7 < Nat.pow 2 32 := by decide
  exact ⟨emptyRoot_cacheFiles, htable, separate_layerKey, uses_layerCalls, hprocess,
    pathsShort_layers, hname,
    DiskSide.observe_eq emptyRoot_cacheFiles htable separate_layerKey uses_layerCalls hprocess
      (fun _ h => h) pathsShort_layers (fun hempty => absurd hempty hname)⟩

/-! ## Roots without room -/

/-- Slashes alone, which lead to the top directory. -/
def slashes (n : Nat) : String :=
  String.ofList (List.replicate n '/')

theorem lookupNames_slashes
    (n : Nat) :
    FilePath.lookupNames (slashes n) = ["."] := by
  have hsplit : FilePath.splitSlashes (List.replicate n '/') = List.replicate (n + 1) [] := by
    induction n with
    | zero =>
        rfl
    | succ n ih =>
        rw [List.replicate_succ, FilePath.splitSlashes_slash, ih]
        rfl
  rw [FilePath.lookupNames, FilePath.leadsToDirectory, FilePath.names, slashes,
    String.toList_ofList, hsplit]
  simp [List.getLast?_replicate]

theorem utf8ByteSize_slashes
    (n : Nat) :
    (slashes n).utf8ByteSize = n := by
  rw [slashes, String.utf8ByteSize_ofList]
  induction n with
  | zero =>
      rfl
  | succ n ih =>
      rw [List.replicate_succ, String.utf8Len_cons, ih]
      rfl

theorem emptyRoot_slashes
    {n : Nat} (hpos : 0 < n) (hshort : n ≤ maxPathBytes) :
    EmptyRoot FileTree.empty (slashes n) [] := by
  have hempty : slashes n ≠ "" := by
    intro h
    have hbytes := utf8ByteSize_slashes n
    rw [h] at hbytes
    have hnone : "".utf8ByteSize = 0 := rfl
    omega
  have hnul : '\x00' ∉ (slashes n).toList := by
    rw [slashes, String.toList_ofList]
    intro h
    exact absurd (List.eq_of_mem_replicate h) (by decide)
  have hlocate : FileTree.empty.locate true (slashes n) = .ok ⟨[], some .directory⟩ := by
    rw [locate, resolve_eq _ true _ hempty hnul (by rwa [utf8ByteSize_slashes]),
      lookupNames_slashes]
    rfl
  refine ⟨?_, ?_⟩
  · rw [openDirectory, hlocate]
  · rw [nodesBelow]
    simp [FileTree.empty]

/-- Below a root whose path is as long as it may be there is no room for the path of a store. -/
theorem unreachable_slashes
    {name : String} (hname : FilePath.Plain name) (hpos : 0 < name.utf8ByteSize) :
    Unreachable FileTree.empty (FilePath.join (slashes maxPathBytes) name) := by
  have hroot := emptyRoot_slashes (n := maxPathBytes) (by decide) (Nat.le_refl _)
  have hjoin : (slashes maxPathBytes).utf8ByteSize + name.utf8ByteSize ≤
      (FilePath.join (slashes maxPathBytes) name).utf8ByteSize :=
    (FilePath.utf8ByteSize_join hname.head?_ne).1
  rw [utf8ByteSize_slashes] at hjoin
  refine .of_long _ (FilePath.join_ne_empty hroot.ne_empty hname.head?_ne) ?_ (by omega)
  rw [FilePath.nul_mem_join hname.head?_ne hname.nulFree]
  exact hroot.nulFree

/-- A store out of reach fails to hold a document. -/
theorem observe_put_ne
    {files : FileTree} {root table : String}
    (h : Unreachable files (FilePath.join root (Text.fileSafe table))) (process : Nat)
    (key : PrimaryKey) (doc : Document) :
    DiskSide.observe root table ⟨DiskCache.ofTable root table process, files⟩ [.put key doc] ≠
      MemorySide.observe ⟨.empty, .zero⟩ [.put key doc] := by
  rw [← directory_ofTable root table process] at h
  obtain ⟨hput, -⟩ := put_unreachable h key doc
  intro heq
  have hanswer := congrArg (List.map Observation.answer) heq
  simp [DiskSide.observe, DiskSide.call, hput, MemorySide.observe, MemorySide.call, Except.map]
    at hanswer

/-- A store whose directory cannot be removed fails to be cleared. -/
theorem observe_clear_ne
    {files : FileTree} {root table : String} {process : Nat} {e : CacheError}
    (h : ((DiskCache.ofTable root table process).clear files).1 = .error e) :
    DiskSide.observe root table ⟨DiskCache.ofTable root table process, files⟩ [.clear] ≠
      MemorySide.observe ⟨.empty, .zero⟩ [.clear] := by
  intro heq
  have hanswer := congrArg (List.map Observation.answer) heq
  simp [DiskSide.observe, DiskSide.call, h, MemorySide.observe, MemorySide.call, Except.map]
    at hanswer

theorem emptyRoot_point :
    EmptyRoot cacheFiles "c/." ["c"] := by
  refine ⟨by rfl, ?_⟩
  rw [nodesBelow]
  simp [cacheFiles, FileTree.empty, FileTree.put, isBelow]

/-- A root under a path that ends in a point cannot be removed, and below a root under a path that
is as long as it may be there is no room for an entry: there a store on disk fails where a store in
memory does not. -/
theorem DiskSide.observe_ne_without_room :
    (EmptyRoot cacheFiles "c/." ["c"] ∧
        DiskSide.observe "c/." "" ⟨DiskCache.ofTable "c/." "" 7, cacheFiles⟩ [.clear] ≠
          MemorySide.observe ⟨.empty, .zero⟩ [.clear]) ∧
      EmptyRoot FileTree.empty (slashes maxPathBytes) [] ∧ LayerKey (Sample.singleKey "a") ∧
        Separate LayerKey ∧ Storable (Sample.layer "a" true) ∧
        DiskSide.observe (slashes maxPathBytes) "layers"
            ⟨DiskCache.ofTable (slashes maxPathBytes) "layers" 7, .empty⟩
            [.put (Sample.singleKey "a") (Sample.layer "a" true)] ≠
          MemorySide.observe ⟨.empty, .zero⟩
            [.put (Sample.singleKey "a") (Sample.layer "a" true)] := by
  have hclear : ((DiskCache.ofTable "c/." "" 7).clear cacheFiles).1 =
      .error (.io "c/./" "Invalid argument (os error 22)") := by
    cbv
  have hunreachable : Unreachable FileTree.empty
      (FilePath.join (slashes maxPathBytes) (Text.fileSafe "layers")) :=
    unreachable_slashes (Text.plain_fileSafe (by decide)) (by decide)
  exact ⟨⟨emptyRoot_point, observe_clear_ne hclear⟩,
    emptyRoot_slashes (by decide) (Nat.le_refl _), .inl rfl, separate_layerKey,
    storable_layer "a" true, observe_put_ne hunreachable 7 _ _⟩

end DocumentTables
