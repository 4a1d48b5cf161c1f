import Mathlib
import DocumentTables.Proofs.CollectionContents
import DocumentTables.Proofs.TableRequests

/-!
# Documents served from the cache

A write forgets what the cache holds for the key that it is given, and for the key of the document
that it writes.  A document may be held under other keys as well: those of another field, of an item
of an array, of fewer sub-fields, or with the other floating-point zero.  If it is, and the write
takes it out of the collection, the cache goes on serving a document that is gone; and this is the
only way to that.

**Results.**

* `TableState.serves_iff_current`: the cache serves stored documents only, exactly if all that it
  can be asked for is stored.
* `TableState.Current.request_iff`: a request keeps it so, exactly if it strands no document.
* `serves_iff_not_strands`: the documents served in a run.
* `serves_deleted_layer`: a document is deleted and served.
-/

namespace DocumentTables

/-- The request does not lead to a cache on disk. -/
def Request.OffDisk : Request → Prop
  | .setCacheStrategy strategy => strategy ≠ .disk
  | _ => True

/-- The request takes a document away, and neither forgets nor renews what is held for the key: its
own keys are not alike to that. -/
def Request.Spares (schema : KeySchema) (k : PrimaryKey) : Request → Prop
  | .update doc oldKey _ =>
      oldKey.alike k = false ∧ ∀ own, schema.extractKey doc = .ok own → own.alike k = false
  | .delete key => key.alike k = false
  | _ => False

namespace Collection

variable {c c' : Collection} {doc : Document}

/-- The new document is stored. -/
theorem mem_of_replace
    {filter : Filter} {position : Nat} (hposition : c.position? filter = some position)
    (h : c.replace position doc = .ok c') :
    doc ∈ c'.documents := by
  obtain ⟨hlt, -⟩ := List.findIdx?_eq_some_iff_getElem.mp hposition
  rw [replace] at h
  split at h
  · simp at h
  · cases h
    exact List.mem_set hlt doc

end Collection

namespace TableState

variable {τ : Type}

/-- Every document that the cache can be asked for is stored. -/
def Current (s : TableState (τ × MemoryBackend)) : Prop :=
  ∀ key doc, (∃ safe, key.validate = .ok safe) → s.held.find key = some doc →
    doc ∈ s.collection.documents

/-- Every document that a look-up through the cache answers with is stored. -/
def Serves (n : Network τ) (s : TableState (τ × MemoryBackend)) : Prop :=
  ∀ key doc s', (Table.selectWith n.manager key .use).run s = (.ok (some doc), s') →
    doc ∈ s'.collection.documents

/-- The request succeeds and takes away a document that stays in the cache under a key of which the
request does not know. -/
def Strands (n : Network τ) (s : TableState (τ × MemoryBackend)) (request : Request) : Prop :=
  ∃ answer s' key doc, (request.perform n.manager).run s = (.ok answer, s') ∧
    request.Spares s.table.schema key ∧ (∃ safe, key.validate = .ok safe) ∧
    s.held.find key = some doc ∧ doc ∈ s.collection.documents ∧ doc ∉ s'.collection.documents

variable {n : Network τ} {s s' : TableState (τ × MemoryBackend)} {c : Collection} {held : KeyMap}

theorem serves_iff_current
    (hs : s.Volatile) :
    s.Serves n ↔ s.Current := by
  constructor
  · rintro hserves key doc ⟨safe, hkey⟩ hheld
    refine hserves key doc (s.asking key) ?_
    rw [Table.run_selectWith hs, hkey]
    simp [hheld]
  · intro hcurrent key doc s' hrun
    obtain ⟨hkey, ⟨-, -, hheld, hleaves⟩ | ⟨hfound, hleaves⟩⟩ := Table.selectWith_ok hs hrun
    · rw [hleaves.collection]
      exact hcurrent key doc hkey hheld
    · rw [hleaves.collection]
      exact List.mem_of_find?_eq_some hfound

theorem strands_iff
    {request : Request} {answer : Answer}
    (hrun : (request.perform n.manager).run s = (.ok answer, s')) :
    s.Strands n request ↔
      ∃ key doc, request.Spares s.table.schema key ∧ (∃ safe, key.validate = .ok safe) ∧
        s.held.find key = some doc ∧ doc ∈ s.collection.documents ∧
        doc ∉ s'.collection.documents := by
  constructor
  · rintro ⟨answer', s'', key, doc, hrun', hstrands⟩
    rw [hrun] at hrun'
    cases hrun'
    exact ⟨key, doc, hstrands⟩
  · rintro ⟨key, doc, hstrands⟩
    exact ⟨answer, s', key, doc, hrun, hstrands⟩

theorem not_strands_of_error
    {request : Request} {e : Error}
    (hrun : (request.perform n.manager).run s = (.error e, s')) :
    ¬ s.Strands n request := by
  rintro ⟨answer, s'', key, doc, hrun', -⟩
  rw [hrun] at hrun'
  simp at hrun'

theorem not_strands_of_not_spares
    {request : Request} (hspares : ∀ key, ¬ request.Spares s.table.schema key) :
    ¬ s.Strands n request := by
  rintro ⟨-, -, key, -, -, hspared, -⟩
  exact hspares key hspared

namespace Current

variable {request : Request} {answer : Answer} {key : PrimaryKey} {doc : Document}

/-- What the cache holds is what it held before or is stored now. -/
theorem of_leaves
    (h : s.Current) (hleaves : s.Leaves s' c held)
    (hheld : ∀ key doc, held.find key = some doc →
      s.held.find key = some doc ∨ doc ∈ c.documents)
    (hdocs : ∀ doc ∈ s.collection.documents, doc ∈ c.documents) :
    s'.Current := by
  intro key doc hkey hfind
  rw [hleaves.held] at hfind
  rw [hleaves.collection]
  rcases hheld key doc hfind with hfind | hdoc
  · exact hdocs doc (h key doc hkey hfind)
  · exact hdoc

theorem of_within
    (h : s.Current) (hleaves : s.Leaves s' s.collection held) (hheld : held.Within s.held) :
    s'.Current := by
  exact h.of_leaves hleaves (fun key doc hfind => .inl (hheld key doc hfind)) fun _ hdoc => hdoc

/-- A write that takes documents away.  What it leaves in the cache is spared by it or is stored,
and what it spares it leaves. -/
theorem iff_of_write
    (h : s.Current) (hrun : (request.perform n.manager).run s = (.ok answer, s'))
    (hleaves : s.Leaves s' c held)
    (hheld : ∀ key doc, held.find key = some doc →
      (request.Spares s.table.schema key ∧ s.held.find key = some doc) ∨ doc ∈ c.documents)
    (hspared : ∀ key, request.Spares s.table.schema key → held.find key = s.held.find key) :
    s'.Current ↔ ¬ s.Strands n request := by
  rw [strands_iff hrun, hleaves.collection]
  constructor
  · rintro hcurrent ⟨key, doc, hspares, hkey, hfind, -, hgone⟩
    rw [← hspared key hspares, ← hleaves.held] at hfind
    have hdoc := hcurrent key doc hkey hfind
    rw [hleaves.collection] at hdoc
    exact hgone hdoc
  · intro hnone key doc hkey hfind
    rw [hleaves.held] at hfind
    rw [hleaves.collection]
    -- what was spared and is no longer stored would be stranded
    rcases hheld key doc hfind with ⟨hspares, hfind⟩ | hdoc
    · by_cases hgone : doc ∈ c.documents
      · exact hgone
      · exact absurd ⟨key, doc, hspares, hkey, hfind, h key doc hkey hfind, hgone⟩ hnone
    · exact hdoc

theorem select
    (h : s.Current) (hs : s.Volatile) {mode : CacheMode} {found : Option Document}
    (hrun : (Table.selectWith n.manager key mode).run s = (.ok found, s')) :
    s'.Current := by
  obtain ⟨-, ⟨-, -, -, hleaves⟩ | ⟨hfound, hleaves⟩⟩ := Table.selectWith_ok hs hrun
  · exact h.of_within hleaves (.refl _)
  · cases found with
    | none =>
        refine h.of_within hleaves ?_
        rw [Table.heldAfterFetch]
        split
        · exact (KeyMap.Within.refl _).erase_left
        · exact .refl _
    | some doc =>
        refine h.of_leaves hleaves (fun k d hfind => ?_) fun _ hdoc => hdoc
        rw [Table.heldAfterFetch, heldWith] at hfind
        split at hfind
        · rw [KeyMap.find_store] at hfind
          split at hfind
          · cases hfind
            exact .inr (List.mem_of_find?_eq_some hfound)
          · exact .inl hfind
        · exact .inl hfind

/-- After a replacement the cache holds the new document, or what it held before. -/
theorem replace_iff
    (h : s.Current) {oldKey : PrimaryKey} {validate : Bool}
    (hrun : ((Request.update doc oldKey validate).perform n.manager).run s = (.ok answer, s'))
    {own : Option PrimaryKey} (hown : (s.table.schema.extractKey doc).toOption = own)
    (hdoc : doc ∈ s'.collection.documents)
    (hleaves : s.Leaves s' s'.collection (Table.heldAfterReplace s oldKey doc own)) :
    s'.Current ↔ ¬ s.Strands n (.update doc oldKey validate) := by
  refine h.iff_of_write hrun hleaves ?_ ?_
  · intro key d hfind
    cases hextract : s.table.schema.extractKey doc with
    | error e =>
        rw [hextract, Except.toOption] at hown
        subst hown
        obtain ⟨hkey, hfind⟩ := KeyMap.find_of_find_erase hfind
        exact .inl ⟨⟨hkey, by simp [hextract]⟩, hfind⟩
    | ok o =>
        rw [hextract, Except.toOption] at hown
        subst hown
        rw [Table.heldAfterReplace, heldWith] at hfind
        split at hfind
        · rw [KeyMap.find_store] at hfind
          split at hfind
          · cases hfind
            exact .inr hdoc
          · next halike =>
              obtain ⟨hkey, hfind⟩ := KeyMap.find_of_find_erase hfind
              refine .inl ⟨⟨hkey, fun own howned => ?_⟩, hfind⟩
              rw [hextract] at howned
              cases howned
              simpa using halike
        · next hmemory =>
            have hempty : s.held = .empty := Cache.held_of_ne_memory hmemory
            have := (KeyMap.find_of_find_erase hfind).2
            simp [hempty] at this
  · rintro key ⟨hkey, hothers⟩
    have herase : (s.held.erase oldKey).find key = s.held.find key := by
      simp [KeyMap.find_erase, hkey]
    cases hextract : s.table.schema.extractKey doc with
    | error e =>
        rw [hextract, Except.toOption] at hown
        subst hown
        exact herase
    | ok o =>
        rw [hextract, Except.toOption] at hown
        subst hown
        rw [Table.heldAfterReplace, heldWith]
        split
        · rw [KeyMap.find_store, hothers o hextract]
          exact herase
        · exact herase

theorem update_iff
    (h : s.Current) (hs : s.Volatile) {oldKey : PrimaryKey} {validate : Bool}
    (hrun : ((Request.update doc oldKey validate).perform n.manager).run s = (.ok answer, s')) :
    s'.Current ↔ ¬ s.Strands n (.update doc oldKey validate) := by
  obtain ⟨r, hr, hmap⟩ := TableAction.run_map_eq_iff.mp hrun
  cases r with
  | error e =>
      simp [Except.map] at hmap
  | ok u =>
      obtain ⟨-, own, hown, ⟨-, hleaves⟩ | ⟨position, hposition, hreplace, hleaves⟩⟩ :=
        Table.updateWith_ok hs hr
      · refine iff_of_true (h.of_within hleaves (KeyMap.Within.refl _).erase_left) ?_
        rw [strands_iff hrun, hleaves.collection]
        rintro ⟨_, _, _, _, _, hdoc, hgone⟩
        exact hgone hdoc
      · exact h.replace_iff hrun (KeySchema.toOption_extractKey_of_keyToWrite hown)
          (Collection.mem_of_replace hposition hreplace) hleaves

theorem delete_iff
    (h : s.Current) (hs : s.Volatile)
    (hrun : ((Request.delete key).perform n.manager).run s = (.ok answer, s')) :
    s'.Current ↔ ¬ s.Strands n (.delete key) := by
  obtain ⟨r, hr, hmap⟩ := TableAction.run_map_eq_iff.mp hrun
  cases r with
  | error e =>
      simp [Except.map] at hmap
  | ok found =>
      have hheld : ∀ k d, (s.held.erase key).find k = some d →
          (Request.delete key).Spares s.table.schema k ∧ s.held.find k = some d :=
        fun k d hfind => KeyMap.find_of_find_erase hfind
      have hspared : ∀ k, (Request.delete key).Spares s.table.schema k →
          (s.held.erase key).find k = s.held.find k := by
        intro k hk
        rw [KeyMap.find_erase, show key.alike k = false from hk]
        rfl
      obtain ⟨-, ⟨-, -, hleaves⟩ | ⟨position, -, -, hleaves⟩⟩ := Table.delete_ok hs hr
      · exact h.iff_of_write hrun hleaves (fun k d hfind => .inl (hheld k d hfind)) hspared
      · exact h.iff_of_write hrun hleaves (fun k d hfind => .inl (hheld k d hfind)) hspared

/-- A request keeps the cache current exactly if it strands no document. -/
theorem request_iff
    (h : s.Current) (hs : s.Volatile) {result : Except Error Answer}
    (hrun : (request.perform n.manager).run s = (result, s')) :
    s'.Current ↔ ¬ s.Strands n request := by
  cases result with
  | error e =>
      obtain ⟨held, hleaves, hheld⟩ := Request.leaves_of_error hs hrun
      exact iff_of_true (h.of_within hleaves hheld) (not_strands_of_error hrun)
  | ok answer =>
      have hother : (∀ key, ¬ request.Spares s.table.schema key) → s'.Current →
          (s'.Current ↔ ¬ s.Strands n request) :=
        fun hnone hcurrent => iff_of_true hcurrent (not_strands_of_not_spares hnone)
      have hself := KeyMap.Within.refl s.held
      cases request with
      | update doc key validate =>
          exact h.update_iff hs hrun
      | delete key =>
          exact h.delete_iff hs hrun
      | insert doc validate =>
          obtain ⟨_, hr⟩ := TableAction.exists_run_of_map hrun
          obtain ⟨-, hinsert, hleaves⟩ := Table.insertWith_ok hr
          refine hother (fun _ => id) (h.of_leaves hleaves (fun _ _ => .inl) fun d hd => ?_)
          rw [Collection.documents_of_insert hinsert]
          exact List.mem_append_left _ hd
      | existsDocument key =>
          obtain ⟨_, hr⟩ := TableAction.exists_run_of_map hrun
          exact hother (fun _ => id) (h.of_within (Table.existsDocument_ok hr).2.2 hself)
      | select key mode =>
          obtain ⟨_, hr⟩ := TableAction.exists_run_of_map hrun
          exact hother (fun _ => id) (h.select hs hr)
      | selectKeys filter =>
          obtain ⟨_, hr⟩ := TableAction.exists_run_of_map hrun
          exact hother (fun _ => id) (h.of_within (Table.selectKeys_leaves hr) hself)
      | «exists» =>
          obtain ⟨_, hr⟩ := TableAction.exists_run_of_map hrun
          exact hother (fun _ => id) (h.of_within (Table.exists_leaves hr) hself)
      | create =>
          obtain ⟨_, hr⟩ := TableAction.exists_run_of_map hrun
          refine hother (fun _ => id) (h.of_leaves (Table.create_ok hr) (fun _ _ => .inl) ?_)
          intro d hd
          rw [Collection.addIndex]
          split <;> exact hd
      | drop =>
          obtain ⟨_, hr⟩ := TableAction.exists_run_of_map hrun
          refine hother (fun _ => id) fun key doc _ hfind => ?_
          rw [(Table.drop_ok hs hr).held] at hfind
          simp at hfind
      | clearCache =>
          obtain ⟨_, hr⟩ := TableAction.exists_run_of_map hrun
          rw [Table.run_clearCache hs] at hr
          cases hr
          exact hother (fun _ => id) (h.of_within Table.clearCache_leaves KeyMap.Within.of_empty)
      | setCacheStrategy strategy =>
          obtain ⟨_, hr⟩ := TableAction.exists_run_of_map hrun
          obtain ⟨-, -, -, -, hcollection, hheld⟩ := Table.setCacheStrategy_ok hs hr
          refine hother (fun _ => id) fun key doc hkey hfind => ?_
          rw [hcollection]
          rcases hheld with hheld | hheld
          · rw [hheld] at hfind
            exact h key doc hkey hfind
          · simp [hheld] at hfind

end Current

/-- A request that does not lead to a cache on disk leaves none there. -/
theorem isVolatile_of_perform
    (hs : s.Volatile) {request : Request} (hdisk : request.OffDisk) {result : Except Error Answer}
    (hrun : (request.perform n.manager).run s = (result, s')) :
    s'.Volatile := by
  cases result with
  | error e =>
      obtain ⟨held, hleaves, -⟩ := Request.leaves_of_error hs hrun
      exact hleaves.isVolatile hs
  | ok answer =>
      rcases Request.strategy_of_ok hs hrun with hstrategy | ⟨strategy, rfl, hstrategy⟩
      · rw [Volatile, Cache.Volatile, hstrategy]
        exact hs
      · rw [Volatile, Cache.Volatile, hstrategy]
        exact hdisk

end TableState

/-- A run without stranded documents keeps the cache current. -/
theorem Run.current
    {τ : Type} {n : Network τ} {s₀ s : TableState (τ × MemoryBackend)} {trace : List Event}
    (hrun : Run n (fun s request => request.OffDisk ∧ ¬ s.Strands n request) s₀ trace s)
    (hs : s₀.Volatile) (h : s₀.Current) :
    s.Volatile ∧ s.Current := by
  induction hrun with
  | start =>
      exact ⟨hs, h⟩
  | elsewhere _ htable hcollection ih =>
      obtain ⟨hvolatile, hcurrent⟩ := ih
      have hleaves := TableState.leaves_of_elsewhere htable hcollection
      exact ⟨hleaves.isVolatile hvolatile, hcurrent.of_within hleaves (.refl _)⟩
  | request _ hallowed hperform ih =>
      obtain ⟨hvolatile, hcurrent⟩ := ih
      exact ⟨TableState.isVolatile_of_perform hvolatile hallowed.1 hperform,
        (hcurrent.request_iff hvolatile hperform).mpr hallowed.2⟩

/-- **When a table that alone writes its collection serves a document that is gone.**  As long as no
request strands a document, all documents served are stored.  The first request that strands one is
followed by a look-up that answers with a document that is gone, and no other request is. -/
theorem serves_iff_not_strands
    {τ : Type} {n : Network τ} {s₀ s : TableState (τ × MemoryBackend)} {trace : List Event}
    (hvolatile : s₀.Volatile) (hheld : s₀.held = .empty)
    (hrun : Run n (fun s request => request.OffDisk ∧ ¬ s.Strands n request) s₀ trace s) :
    s.Serves n ∧
      ∀ request result s', request.OffDisk →
        (request.perform n.manager).run s = (result, s') →
        (s'.Serves n ↔ ¬ s.Strands n request) := by
  have hcurrent₀ : s₀.Current := by
    intro key doc _ hfind
    simp [hheld] at hfind
  obtain ⟨hs, hcurrent⟩ := hrun.current hvolatile hcurrent₀
  refine ⟨(TableState.serves_iff_current hs).mpr hcurrent, ?_⟩
  intro request result s' hdisk hperform
  rw [TableState.serves_iff_current (TableState.isVolatile_of_perform hs hdisk hperform)]
  exact hcurrent.request_iff hs hperform

/-- A key that a layer has beside its own: it is enabled. -/
def enabledKey : PrimaryKey :=
  .single "enabled" (.bool true)

/-- A layer is added and looked up by a field that is not its identity. -/
def warmingRequests : List Request :=
  [.create, .insert (Sample.layer "a" true) true, .select enabledKey .use]

/-- The table with the layer in its cache. -/
def warmLayers : TableState (List (Option BackendError) × MemoryBackend) :=
  (Request.performAll Sample.network.manager warmingRequests (Sample.layers [])).2

/-- The deletion of the layer by its identity. -/
def layerDeletion :
    Except Error Answer × TableState (List (Option BackendError) × MemoryBackend) :=
  ((Request.delete (Sample.singleKey "a")).perform Sample.network.manager).run warmLayers

/-- Up to its look-up by another field the layer is served rightly; its deletion strands it. -/
theorem serves_iff_not_strands_layer :
    (Sample.layers []).Volatile ∧ (Sample.layers []).held = .empty ∧
    Run Sample.network (fun s request => request.OffDisk ∧ ¬ s.Strands Sample.network request)
      (Sample.layers [])
      (Request.performAll Sample.network.manager warmingRequests (Sample.layers [])).1
      warmLayers ∧
    warmLayers.Serves Sample.network ∧
    warmLayers.Strands Sample.network (.delete (Sample.singleKey "a")) ∧
    ¬ layerDeletion.2.Serves Sample.network := by
  have hvolatile : (Sample.layers []).Volatile := Sample.isVolatile_layers _
  have hheld : (Sample.layers []).held = .empty := Sample.held_layers _
  have hallowed : ∀ request ∈ warmingRequests,
      ∀ s : TableState (List (Option BackendError) × MemoryBackend),
        request.OffDisk ∧ ¬ s.Strands Sample.network request := by
    intro request hrequest s
    simp only [warmingRequests, List.mem_cons, List.not_mem_nil, or_false] at hrequest
    rcases hrequest with rfl | rfl | rfl
    all_goals exact ⟨trivial, TableState.not_strands_of_not_spares fun _ => id⟩
  have hrun := Run.start.performAll (n := Sample.network) (s := Sample.layers []) hallowed
  obtain ⟨hserves, hiff⟩ := serves_iff_not_strands hvolatile hheld hrun
  have hstored : warmLayers.collection.documents = [Sample.layer "a" true] := by cbv
  have hdeleted : layerDeletion.2.collection.documents = [] := by cbv
  have hanswer : layerDeletion.1 = .ok (.found (some (Sample.layer "a" true))) := by cbv
  have hdeletion : ((Request.delete (Sample.singleKey "a")).perform Sample.network.manager).run
      warmLayers = (layerDeletion.1, layerDeletion.2) := rfl
  have hstrands : warmLayers.Strands Sample.network (.delete (Sample.singleKey "a")) := by
    refine ⟨.found (some (Sample.layer "a" true)), layerDeletion.2, enabledKey,
      Sample.layer "a" true, ?_, ?_, ⟨true, rfl⟩, ?_, ?_, ?_⟩
    · rw [hdeletion, hanswer]
    · cbv
    · cbv
    · simp [hstored]
    · simp [hdeleted]
  refine ⟨hvolatile, hheld, hrun, hserves, hstrands, ?_⟩
  exact fun hserved =>
    (hiff (.delete (Sample.singleKey "a")) _ _ trivial hdeletion).mp hserved hstrands

/-- A layer is deleted by its identity, and a look-up by another field still answers with it. -/
theorem serves_deleted_layer :
    (Sample.layers []).Volatile ∧ (Sample.layers []).held = .empty ∧
    (Request.performAll Sample.network.manager
        (warmingRequests ++ [.delete (Sample.singleKey "a"), .select enabledKey .use])
        (Sample.layers [])).1.map (·.2) =
      [.ok .done, .ok .done, .ok (.found (some (Sample.layer "a" true))),
        .ok (.found (some (Sample.layer "a" true))),
        .ok (.found (some (Sample.layer "a" true)))] ∧
    (Request.performAll Sample.network.manager
        (warmingRequests ++ [.delete (Sample.singleKey "a"), .select enabledKey .use])
        (Sample.layers [])).2.collection.documents = [] := by
  refine ⟨Sample.isVolatile_layers _, Sample.held_layers _, ?_, ?_⟩
  · cbv
  · cbv

end DocumentTables
