import Enil.Lib.Machine
import Enil.Sync.Grows
import Enil.Sync.Sticons

/-!
# Sticon rows and the stored REPLACE

What the rows of a message are to say is read from its stored `replace_json` and
`sticon_ownership` (`Mirrors`). A writer rebuilds them from its own arguments, so they
say it exactly where the arguments name what the row of the message keeps
(`SticonWrite.Agrees`).
-/

namespace Enil

open Lib Lib.Sql Db SticonDb

/-! ## What the rows are to say -/

/-- The rows of resources, the first of them at `ordinal`. -/
def resourceRows (id : String) (ordinal : Nat) : List Json → List MessageSticon
  | [] => []
  | res :: rest =>
    (match resourceName "productId" res, resourceName "sticonId" res with
      | some pkg, some sid => [⟨id, ordinal, pkg, sid⟩]
      | _, _ => []) ++ resourceRows id (ordinal + 1) rest

section

variable (cj : Cjson)

def namedRows (id : String) (replace : Option JsonText) : List MessageSticon :=
  resourceRows id 0 (replace.elim [] (storedResources cj))

def namedPackages (replace : Option JsonText) (ownership : Option String) : List String :=
  ownedPackages cj ownership ++
    (replace.elim [] (storedResources cj)).filterMap (resourceName "productId")

structure Says (d : SticonDb) (id : String) (replace : Option JsonText)
    (ownership : Option String) : Prop where
  sticons : d.sticons.filter (·.messageId = id) = namedRows cj id replace
  packages : ∀ pkg, (id, pkg) ∈ d.packages ↔ pkg ∈ namedPackages cj replace ownership

/-- The rows of every stored message say what it stores. -/
def Mirrors (d : SticonDb) : Prop :=
  ∀ id r, d.messages id = some r → Says cj d id r.replaceJson r.sticonOwnership

/-- Two sources name the same sticons and packages. -/
def NamesSame (id : String) (replace : Option JsonText) (ownership : Option String)
    (replace' : Option JsonText) (ownership' : Option String) : Prop :=
  namedRows cj id replace = namedRows cj id replace' ∧
    ∀ pkg, pkg ∈ namedPackages cj replace ownership ↔ pkg ∈ namedPackages cj replace' ownership'

variable {cj}

theorem Says.iff_namesSame {d : SticonDb} {id : String} {replace replace' : Option JsonText}
    {own own' : Option String} (h : Says cj d id replace own) :
    Says cj d id replace' own' ↔ NamesSame cj id replace own replace' own' := by
  constructor
  · intro h'
    exact ⟨h.sticons.symm.trans h'.sticons, fun pkg => (h.packages pkg).symm.trans (h'.packages pkg)⟩
  · rintro ⟨hrows, hpkgs⟩
    exact ⟨h.sticons.trans hrows, fun pkg => (h.packages pkg).trans (hpkgs pkg)⟩

end

/-! ## Rebuilding on a connection where nothing fails -/

/-- Rows of one message are added and nothing else changes. -/
structure Adds (id : String) (rows : List MessageSticon) (pkgs : List String)
    (d d' : SticonDb) : Prop where
  db : d'.toDb = d.toDb
  sticons : d'.sticons = d.sticons ++ rows
  packages : ∀ x, x ∈ d'.packages ↔ x ∈ d.packages ∨ x.1 = id ∧ x.2 ∈ pkgs

theorem Adds.refl (id : String) (d : SticonDb) : Adds id [] [] d d :=
  ⟨rfl, (List.append_nil _).symm, fun x => by simp⟩

theorem Adds.trans {id : String} {rows rows' : List MessageSticon} {pkgs pkgs' : List String}
    {a b c : SticonDb} (h : Adds id rows pkgs a b) (h' : Adds id rows' pkgs' b c) :
    Adds id (rows ++ rows') (pkgs ++ pkgs') a c := by
  refine ⟨h'.db.trans h.db, ?_, fun x => ?_⟩
  · rw [h'.sticons, h.sticons, List.append_assoc]
  · rw [h'.packages, h.packages, List.mem_append, or_assoc, ← and_or_left]

theorem adds_package (id pkg : String) (d : SticonDb) :
    Adds id [] [pkg] d (insertMessageSticonPackage id pkg d).2 := by
  refine ⟨rfl, (List.append_nil _).symm, fun x => ?_⟩
  show x ∈ insert (id, pkg) d.packages ↔ _
  rw [Finset.mem_insert, List.mem_singleton, Prod.ext_iff]
  exact Or.comm

/-- A sticon goes to the end where its place is free. -/
theorem adds_sticon {s : MessageSticon} {d : SticonDb}
    (hfree : ∀ t ∈ d.sticons, t.messageId = s.messageId → t.ordinal ≠ s.ordinal) :
    Adds s.messageId [s] [] d (insertMessageSticon s d).2 := by
  refine ⟨rfl, ?_, fun x => by simp [insertMessageSticon]⟩
  show d.sticons.filter _ ++ [s] = d.sticons ++ [s]
  rw [List.filter_eq_self.mpr]
  intro t ht
  simpa [imp_iff_not_or] using hfree t ht

variable {cj : Cjson}

theorem storePackages_quiet (id : String) {c : Conn SticonDb} (h : c.faults = [])
    (pkgs : List String) :
    (storePackages id pkgs c).2.faults = [] ∧ Adds id [] pkgs c.db (storePackages id pkgs c).2.db := by
  induction pkgs generalizing c with
  | nil => exact ⟨h, .refl id c.db⟩
  | cons pkg pkgs ih =>
    have hone : discard (exec (insertMessageSticonPackage id pkg)) c = ((), { c with
        db := (insertMessageSticonPackage id pkg c.db).2
        changes := (insertMessageSticonPackage id pkg c.db).1 }) := by
      show ((), (exec _ c).2) = _
      rw [exec_quiet h]
    unfold storePackages
    rw [bind_apply, hone]
    obtain ⟨hq, hadds⟩ := ih (c := { c with
        db := (insertMessageSticonPackage id pkg c.db).2
        changes := (insertMessageSticonPackage id pkg c.db).1 }) h
    exact ⟨hq, (adds_package id pkg c.db).trans hadds⟩

theorem storeResource_quiet (id : String) (n : Nat) (res : Json) {c : Conn SticonDb}
    (h : c.faults = []) (hfree : ∀ t ∈ c.db.sticons, t.messageId = id → t.ordinal ≠ n) :
    (storeResource id n res c).2.faults = [] ∧
    Adds id (resourceRows id n [res]) (resourceName "productId" res).toList c.db
      (storeResource id n res c).2.db := by
  have hrun (stmt : SticonDb → Nat × SticonDb) {c : Conn SticonDb} (h : c.faults = []) :
      (discard (exec stmt) c).2 = { c with db := (stmt c.db).2, changes := (stmt c.db).1 } := by
    show (exec stmt c).2 = _
    rw [exec_quiet h]
  unfold storeResource
  cases hpkg : resourceName "productId" res with
  | none => simpa [resourceRows, hpkg] using ⟨h, Adds.refl id c.db⟩
  | some pkg =>
    cases hsid : resourceName "sticonId" res with
    | none =>
      simp only [hrun _ h]
      exact ⟨h, by simpa [resourceRows, hpkg, hsid] using adds_package id pkg c.db⟩
    | some sid =>
      have hsticon := adds_sticon (s := ⟨id, n, pkg, sid⟩) hfree
      simp only [bind_apply, hrun _ h]
      rw [hrun _ (by exact h)]
      refine ⟨h, ?_⟩
      simpa [resourceRows, hpkg, hsid] using hsticon.trans (adds_package id pkg _)

theorem ordinal_of_mem_resourceRows {id : String} {s : MessageSticon} :
    ∀ {rs : List Json} {n : Nat}, s ∈ resourceRows id n rs → s.messageId = id ∧ n ≤ s.ordinal
  | [], _, h => nomatch h
  | res :: rs, n, h => by
    rw [resourceRows, List.mem_append] at h
    rcases h with h | h
    · split at h
      · obtain rfl := List.mem_singleton.mp h
        exact ⟨rfl, le_refl n⟩
      · cases h
    · obtain ⟨hid, hle⟩ := ordinal_of_mem_resourceRows h
      exact ⟨hid, by omega⟩

theorem resourceRows_single {id : String} {n : Nat} {res : Json} {s : MessageSticon}
    (h : s ∈ resourceRows id n [res]) : s.ordinal = n := by
  rw [resourceRows, List.mem_append] at h
  rcases h with h | h
  · split at h
    · obtain rfl := List.mem_singleton.mp h
      rfl
    · cases h
  · cases h

theorem storeResources_quiet (id : String) (rs : List Json) {n : Nat} {c : Conn SticonDb}
    (h : c.faults = []) (hfree : ∀ t ∈ c.db.sticons, t.messageId = id → t.ordinal < n) :
    (storeResources id n rs c).2.faults = [] ∧
    Adds id (resourceRows id n rs) (rs.filterMap (resourceName "productId")) c.db
      (storeResources id n rs c).2.db := by
  induction rs generalizing n c with
  | nil => exact ⟨h, .refl id c.db⟩
  | cons res rs ih =>
    obtain ⟨hq, hone⟩ := storeResource_quiet id n res h fun t ht hid => by
      have := hfree t ht hid
      omega
    have hfree' : ∀ t ∈ (storeResource id n res c).2.db.sticons, t.messageId = id →
        t.ordinal < n + 1 := by
      intro t ht hid
      rw [hone.sticons, List.mem_append] at ht
      rcases ht with ht | ht
      · have := hfree t ht hid
        omega
      · have := resourceRows_single ht
        omega
    obtain ⟨hq', hrest⟩ := ih hq hfree'
    refine ⟨hq', ?_⟩
    have hall := hone.trans hrest
    have hrows : resourceRows id n [res] ++ resourceRows id (n + 1) rs =
        resourceRows id n (res :: rs) := by
      simp only [resourceRows, List.append_nil]
    have hpkgs : (resourceName "productId" res).toList ++
        rs.filterMap (resourceName "productId") =
        (res :: rs).filterMap (resourceName "productId") := by
      rw [List.filterMap_cons]
      cases resourceName "productId" res <;> rfl
    rwa [hrows, hpkgs] at hall

structure OthersStay (id : String) (d d' : SticonDb) : Prop where
  sticons : ∀ id', id' ≠ id →
    d'.sticons.filter (·.messageId = id') = d.sticons.filter (·.messageId = id')
  packages : ∀ x : String × String, x.1 ≠ id → (x ∈ d'.packages ↔ x ∈ d.packages)

theorem OthersStay.refl (id : String) (d : SticonDb) : OthersStay id d d :=
  ⟨fun _ _ => rfl, fun _ _ => Iff.rfl⟩

theorem OthersStay.rows_iff {id id' : String} {d d' : SticonDb} (h : OthersStay id d d')
    (hid : id' ≠ id) (replace : Option JsonText) (own : Option String) :
    Says cj d' id' replace own ↔ Says cj d id' replace own := by
  constructor
  · rintro ⟨hrows, hpkgs⟩
    exact ⟨(h.sticons id' hid).symm.trans hrows,
      fun pkg => (h.packages (id', pkg) hid).symm.trans (hpkgs pkg)⟩
  · rintro ⟨hrows, hpkgs⟩
    exact ⟨(h.sticons id' hid).trans hrows, fun pkg => (h.packages (id', pkg) hid).trans (hpkgs pkg)⟩

variable (cj) in
/-- Where nothing fails, the rows of the message say what they were rebuilt from. -/
theorem replaceMessageSticonRows_quiet (id : String) (replace : JsonText) (own : Option String)
    {c : Conn SticonDb} (h : c.faults = []) :
    let c' := (replaceMessageSticonRows cj id replace own c).2
    c'.faults = [] ∧ c'.db.toDb = c.db.toDb ∧ Says cj c'.db id (some replace) own ∧
      OthersStay id c.db c'.db := by
  have hrun (stmt : SticonDb → Nat × SticonDb) {c : Conn SticonDb} (h : c.faults = []) :
      (discard (exec stmt) c).2 = { c with db := (stmt c.db).2, changes := (stmt c.db).1 } := by
    show (exec stmt c).2 = _
    rw [exec_quiet h]
  intro c'
  obtain ⟨c₂, hc₂⟩ : ∃ c₂, c₂ = (discard (exec (clearMessageSticonPackages id))
    (discard (exec (clearMessageSticons id)) c).2).2 := ⟨_, rfl⟩
  have hq₂ : c₂.faults = [] := by
    rw [hc₂, hrun _ h, hrun _ (by exact h)]
    exact h
  have hdb₂ : c₂.db = { c.db with
      sticons := c.db.sticons.filter (·.messageId ≠ id)
      packages := c.db.packages.filter (·.1 ≠ id) } := by
    rw [hc₂, hrun _ h, hrun _ (by exact h)]
    rfl
  obtain ⟨hq₃, hpkgs⟩ := storePackages_quiet id hq₂ (ownedPackages cj own)
  have hfree : ∀ t ∈ (storePackages id (ownedPackages cj own) c₂).2.db.sticons,
      t.messageId = id → t.ordinal < 0 := by
    intro t ht hid
    rw [hpkgs.sticons, hdb₂, List.append_nil, List.mem_filter] at ht
    simp [hid] at ht
  obtain ⟨hq', hrows⟩ := storeResources_quiet id (storedResources cj replace) hq₃ hfree
  have hall := hpkgs.trans hrows
  have hc' : c' = (storeResources id 0 (storedResources cj replace)
      (storePackages id (ownedPackages cj own) c₂).2).2 := by
    rw [hc₂]
    rfl
  rw [← hc'] at hall hq'
  have hsticons : c'.db.sticons = c.db.sticons.filter (·.messageId ≠ id) ++
      resourceRows id 0 (storedResources cj replace) := by
    rw [hall.sticons, hdb₂, List.nil_append]
  refine ⟨hq', by rw [hall.db, hdb₂], ⟨?_, fun pkg => ?_⟩, fun id' hid' => ?_, fun x hx => ?_⟩
  · rw [hsticons, List.filter_append, List.filter_filter]
    have hnone : c.db.sticons.filter (fun s =>
        decide (s.messageId = id) && decide (s.messageId ≠ id)) = [] := by
      rw [List.filter_eq_nil_iff]
      intro s _
      simp
    rw [hnone, List.nil_append]
    exact List.filter_eq_self.mpr fun s hs => decide_eq_true (ordinal_of_mem_resourceRows hs).1
  · rw [hall.packages, hdb₂]
    simp [namedPackages]
  · rw [hsticons, List.filter_append, List.filter_filter]
    have hnone : (resourceRows id 0 (storedResources cj replace)).filter
        (fun s => decide (s.messageId = id')) = [] := by
      rw [List.filter_eq_nil_iff]
      intro s hs heq
      exact hid' ((of_decide_eq_true heq).symm.trans (ordinal_of_mem_resourceRows hs).1)
    rw [hnone, List.append_nil]
    refine List.filter_congr fun s _ => ?_
    by_cases hs : s.messageId = id'
    · simp [hs, hid']
    · simp [hs]
  · rw [hall.packages, hdb₂]
    simp [hx]

/-! ## The writers on a connection where nothing fails -/

theorem onDb_code (m : Sql Db Rc) (c : Conn SticonDb) :
    (onDb m c).1 = (m { db := c.db.toDb, changes := c.changes, faults := c.faults }).1 := rfl

theorem onDb_db (m : Sql Db Rc) (c : Conn SticonDb) :
    (onDb m c).2.db = { c.db with
      toDb := (m { db := c.db.toDb, changes := c.changes, faults := c.faults }).2.db } := rfl

/-- What a writer that succeeds leaves. -/
structure Rebuilds (cj : Cjson) (id : String) (replace : JsonText) (own : Option String)
    (c : Conn SticonDb) (db : Db) (c' : Conn SticonDb) : Prop where
  quiet : c'.faults = []
  db : c'.db.toDb = db
  rows : Says cj c'.db id (some replace) own
  others : OthersStay id c.db c'.db

variable (cj) in
theorem rebuildAfter_quiet {P : (Db → Nat × Db) → Prop} {write : Sql Db Rc} (hm : Built P write)
    (id : String) (replace : JsonText) (own : Option String) {c : Conn SticonDb}
    (h : c.faults = []) (hok : (onDb write c).1 = .ok) :
    Rebuilds cj id replace own c (onDb write c).2.db.toDb
      (rebuildAfter cj write id replace own c).2 := by
  have hq : (onDb write c).2.faults = [] :=
    hm.quiet (c := { db := c.db.toDb, changes := c.changes, faults := c.faults }) h
  obtain ⟨hq', hdb, hrebuilt, hothers⟩ :=
    replaceMessageSticonRows_quiet cj id replace own hq
  unfold rebuildAfter
  rw [bind_apply, if_neg (not_not.mpr hok)]
  exact ⟨hq', hdb, hrebuilt, hothers.sticons, hothers.packages⟩

/-- What the row of a stored message keeps of a REPLACE that comes again. -/
def keptReplace (r : MessageRow) (replace : JsonText) : Option JsonText :=
  if !replace.isEmpty && replaceMissing r then some replace else r.replaceJson

theorem exists_messageRow (cj : Cjson) (m : TalkMessage) :
    ∃ cj', messageRow cj m (m.chatId.getD "") = messageRow cj' m (m.chatId.getD "") :=
  ⟨cj, rfl⟩

/-- A message with what its delivery would write beside its row. -/
def stored (cj : Cjson) (m : TalkMessage) : StoreMessage where
  message := m
  chatId := m.chatId.getD ""
  row := messageRow cj m (m.chatId.getD "")
  row_eq := exists_messageRow cj m
  time := 0
  incoming := false
  decrypt := none
  media := none

variable (cj) in
theorem upsertRow_stored (m : TalkMessage) (r : MessageRow) :
    ((stored cj m).upsertRow (some r)).sticonOwnership = r.sticonOwnership ∧
    ((stored cj m).upsertRow (some r)).replaceJson =
      (messageReplaceJson m).elim r.replaceJson (keptReplace r) := by
  have hfill : ((stored cj m).overwriteOrFillRow r).sticonOwnership = r.sticonOwnership ∧
      ((stored cj m).overwriteOrFillRow r).replaceJson = r.replaceJson := by
    unfold StoreMessage.overwriteOrFillRow
    split
    · exact ⟨rfl, rfl⟩
    · split <;> exact ⟨rfl, rfl⟩
  have hmissing : replaceMissing ((stored cj m).overwriteOrFillRow r) = replaceMissing r :=
    congrArg (Option.all _) hfill.2
  rw [StoreMessage.upsertRow_some]
  unfold StoreMessage.replaceRow
  rw [show messageReplaceJson (stored cj m).message = messageReplaceJson m from rfl]
  cases messageReplaceJson m with
  | none => exact hfill
  | some replace =>
    simp only [Option.elim_some, keptReplace, hmissing]
    split
    · exact ⟨hfill.1, rfl⟩
    · exact hfill

/-! ## Runs of the writers -/

inductive SticonWrite where
  | upsert (m : TalkMessage)
  | plaintext (id text : String) (raw : Json) (replace : JsonText) (status : DecryptStatus)
  | rawJson (id : String) (raw : Json) (replace : JsonText)

def SticonWrite.apply (cj : Cjson) : SticonWrite → Sql SticonDb Rc
  | upsert m => messageUpsertRows cj m
  | plaintext id text raw replace status => setMessagePlaintextRows cj id text raw replace status
  | rawJson id raw replace => setMessageRawJsonRows cj id raw replace

/-- The writers one after the other. -/
def sticonWrites (cj : Cjson) : Machine (Conn SticonDb) SticonWrite where
  step c w := some (w.apply cj c).2

/-- What a writer names is what the row of the message keeps: a REPLACE that comes again
names the sticons and packages of the row, a decrypted one comes where the ownership of
the row adds no package, and a message without REPLACE is new only where nothing is left
of its id and it owns no package. -/
def SticonWrite.Agrees (cj : Cjson) (d : SticonDb) : SticonWrite → Prop
  | upsert m => m.id = "" ∨ m.chatId.getD "" = "" ∨
    match d.messages m.id, messageReplaceJson m with
    | none, none => Says cj d m.id none (messageOwnership m)
    | some r, some replace =>
      NamesSame cj m.id (some replace) (messageOwnership m) (keptReplace r replace)
        r.sticonOwnership
    | _, _ => True
  | plaintext id _ _ replace _ => ∀ r ∈ d.messages id,
    NamesSame cj id (some replace) none (some replace) r.sticonOwnership
  | rawJson id raw replace => ∀ r ∈ d.messages id,
    NamesSame cj id (some replace) (rawOwnership cj raw) (some replace) r.sticonOwnership

/-- After a write that leaves the other messages alone it is the written one that counts. -/
theorem mirrors_iff {d d' : SticonDb} {id : String} (h : Mirrors cj d)
    (hmsg : ∀ id', id' ≠ id → d'.messages id' = d.messages id') (hothers : OthersStay id d d') :
    Mirrors cj d' ↔
      ∀ r, d'.messages id = some r → Says cj d' id r.replaceJson r.sticonOwnership := by
  refine ⟨fun h' r hr => h' id r hr, fun hid id' r hr => ?_⟩
  by_cases hne : id' = id
  · subst hne
    exact hid r hr
  · rw [hmsg id' hne] at hr
    exact (hothers.rows_iff hne _ _).mpr (h id' r hr)

/-- A set of columns of one message with its rows rebuilt. -/
theorem rebuildUpdate_quiet {id : String} {f : MessageRow → MessageRow} (replace : JsonText)
    (own : Option String) (hreplace : ∀ r, (f r).replaceJson = some replace)
    (hown : ∀ r, (f r).sticonOwnership = r.sticonOwnership) {c : Conn SticonDb}
    (hq : c.faults = []) (hm : Mirrors cj c.db) :
    let c' := (rebuildAfter cj (exec (onMessages (·.update id f))) id replace own c).2
    c'.faults = [] ∧ (Mirrors cj c'.db ↔ ∀ r ∈ c.db.messages id,
      NamesSame cj id (some replace) own (some replace) r.sticonOwnership) := by
  intro c'
  have hexec := exec_quiet (c := { db := c.db.toDb, changes := c.changes, faults := c.faults }) hq
    (onMessages (·.update id f))
  have hok : (onDb (exec (onMessages (·.update id f))) c).1 = .ok := by
    rw [onDb_code, hexec]
  have hre := rebuildAfter_quiet cj (.exec (P := fun _ => True) trivial) id replace own
    hq hok
  have hmsgs : c'.db.messages = (c.db.messages.update id f).2 := by
    rw [hre.db, onDb_db, hexec]
    rfl
  refine ⟨hre.quiet, ?_⟩
  rw [mirrors_iff hm (fun id' hne => by rw [hmsgs, Table.update_of_ne _ _ hne]) hre.others]
  have hself : c'.db.messages id = (c.db.messages id).map f := by
    rw [hmsgs, Table.update_same]
  rw [hself]
  constructor
  · intro h r hr
    rw [Option.mem_def] at hr
    have hrow := h (f r) (by rw [hr]; rfl)
    rw [hreplace, hown] at hrow
    exact hre.rows.iff_namesSame.mp hrow
  · intro h r' hr'
    obtain ⟨r, hr, rfl⟩ := Option.map_eq_some_iff.mp hr'
    rw [hreplace, hown]
    exact hre.rows.iff_namesSame.mpr (h r hr)

section Upsert

variable {m : TalkMessage} {c : Conn SticonDb}

theorem messageUpsertRows_refused (hid : m.id = "" ∨ m.chatId.getD "" = "") :
    (messageUpsertRows cj m c).2.db = c.db ∧ (messageUpsertRows cj m c).2.faults = c.faults := by
  have herr : messageUpsert cj m { db := c.db.toDb, changes := c.changes, faults := c.faults } =
      (.error, { db := c.db.toDb, changes := c.changes, faults := c.faults }) := by
    unfold messageUpsert
    rw [if_pos hid]
    rfl
  unfold messageUpsertRows rebuildAfter
  cases messageReplaceJson m with
  | none =>
    rw [onDb_db, herr]
    exact ⟨rfl, congrArg (fun r => r.2.faults) herr⟩
  | some replace =>
    simp only
    rw [bind_apply, if_pos (by rw [onDb_code, herr]; simp), pure_apply, onDb_db, herr]
    exact ⟨rfl, congrArg (fun r => r.2.faults) herr⟩

/-- An upsert with an id and a chat writes its row. -/
theorem messageUpsert_onDb (hq : c.faults = []) (hid : ¬ (m.id = "" ∨ m.chatId.getD "" = "")) :
    (onDb (messageUpsert cj m) c).1 = .ok ∧ (onDb (messageUpsert cj m) c).2.db.toDb =
      c.db.toDb.setRow m.id ((stored cj m).upsertRow (c.db.messages m.id)) := by
  have hid' := not_or.mp hid
  have hchat : nonempty m.chatId := by
    cases hc : m.chatId with
    | none => exact absurd (by rw [hc]; rfl) hid'.2
    | some chat =>
      rw [hc] at hid'
      simpa [nonempty] using hid'.2
  exact messageUpsert_quiet (e := stored cj m)
    (c := { db := c.db.toDb, changes := c.changes, faults := c.faults }) hq hid'.1 hchat rfl

/-- Of a database that holds the upserted row the mirror is a question of that row. -/
theorem mirrors_iff_stored (hm : Mirrors cj c.db) {d : SticonDb}
    (hd : d.toDb = c.db.toDb.setRow m.id ((stored cj m).upsertRow (c.db.messages m.id)))
    (hothers : OthersStay m.id c.db d) :
    Mirrors cj d ↔ Says cj d m.id ((stored cj m).upsertRow (c.db.messages m.id)).replaceJson
      ((stored cj m).upsertRow (c.db.messages m.id)).sticonOwnership := by
  have hself : d.messages m.id = some ((stored cj m).upsertRow (c.db.messages m.id)) := by
    rw [hd]
    exact setRow_messages_self _ _ _
  have hmsg : ∀ id', id' ≠ m.id → d.messages id' = c.db.messages id' := by
    intro id' hne
    rw [hd]
    exact setRow_messages_of_ne _ _ hne
  rw [mirrors_iff hm hmsg hothers, hself]
  simp only [Option.some.injEq, forall_eq']

/-- Without a REPLACE no rows are touched: a row that was there keeps what it names, a new
one names none. -/
theorem messageUpsertRows_plain (hq : c.faults = []) (hm : Mirrors cj c.db)
    (hid : ¬ (m.id = "" ∨ m.chatId.getD "" = "")) (hrep : messageReplaceJson m = none) :
    (messageUpsertRows cj m c).2.faults = [] ∧ (Mirrors cj (messageUpsertRows cj m c).2.db ↔
      (c.db.messages m.id = none → Says cj c.db m.id none (messageOwnership m))) := by
  have hrows : messageUpsertRows cj m c = onDb (messageUpsert cj m) c := by
    unfold messageUpsertRows
    rw [hrep]
  rw [hrows]
  have hq' : (onDb (messageUpsert cj m) c).2.faults = [] := (built_messageUpsert cj m).quiet
    (c := { db := c.db.toDb, changes := c.changes, faults := c.faults }) hq
  have hstay : OthersStay m.id c.db (onDb (messageUpsert cj m) c).2.db :=
    ⟨fun _ _ => rfl, fun _ _ => Iff.rfl⟩
  have hsays : ∀ replace own, Says cj (onDb (messageUpsert cj m) c).2.db m.id replace own ↔
      Says cj c.db m.id replace own :=
    fun _ _ => ⟨fun h => ⟨h.sticons, h.packages⟩, fun h => ⟨h.sticons, h.packages⟩⟩
  refine ⟨hq', ?_⟩
  rw [mirrors_iff_stored hm (messageUpsert_onDb hq hid).2 hstay, hsays]
  cases hold : c.db.messages m.id with
  | none =>
    have hnew : ((stored cj m).upsertRow none).replaceJson = none := hrep
    rw [hnew]
    exact ⟨fun h _ => h, fun h => h rfl⟩
  | some r =>
    obtain ⟨hown, hreplace⟩ := upsertRow_stored cj m r
    rw [hrep, Option.elim_none] at hreplace
    rw [hown, hreplace]
    exact ⟨fun _ h => (by cases h), fun _ => hm m.id r hold⟩

/-- With a REPLACE the rows are rebuilt: those of a new message name it, those of a row that
was there name what the row keeps. -/
theorem messageUpsertRows_rebuilt (hq : c.faults = []) (hm : Mirrors cj c.db)
    (hid : ¬ (m.id = "" ∨ m.chatId.getD "" = "")) {replace : JsonText}
    (hrep : messageReplaceJson m = some replace) :
    (messageUpsertRows cj m c).2.faults = [] ∧ (Mirrors cj (messageUpsertRows cj m c).2.db ↔
      ∀ r, c.db.messages m.id = some r → NamesSame cj m.id (some replace) (messageOwnership m)
        (keptReplace r replace) r.sticonOwnership) := by
  have hrows : messageUpsertRows cj m c =
      rebuildAfter cj (messageUpsert cj m) m.id replace (messageOwnership m) c := by
    unfold messageUpsertRows
    rw [hrep]
  rw [hrows]
  obtain ⟨hok, hrow⟩ := @messageUpsert_onDb cj m c hq hid
  have hre := rebuildAfter_quiet cj (built_messageUpsert cj m) m.id replace (messageOwnership m)
    hq hok
  refine ⟨hre.quiet, ?_⟩
  rw [mirrors_iff_stored hm (hre.db.trans hrow) hre.others, hre.rows.iff_namesSame]
  cases hold : c.db.messages m.id with
  | none =>
    have hnew : ((stored cj m).upsertRow none).replaceJson = some replace := hrep
    rw [hnew]
    exact ⟨fun _ r h => (by cases h), fun _ => ⟨rfl, fun _ => Iff.rfl⟩⟩
  | some r =>
    obtain ⟨hown, hreplace⟩ := upsertRow_stored cj m r
    rw [hrep, Option.elim_some] at hreplace
    rw [hown, hreplace]
    simp only [Option.some.injEq, forall_eq']

/-- An upsert is refused or writes its row and rebuilds what its REPLACE names. -/
theorem messageUpsertRows_quiet (hq : c.faults = []) (hm : Mirrors cj c.db) :
    (messageUpsertRows cj m c).2.faults = [] ∧
    (Mirrors cj (messageUpsertRows cj m c).2.db ↔ (SticonWrite.upsert m).Agrees cj c.db) := by
  by_cases hid : m.id = "" ∨ m.chatId.getD "" = ""
  · obtain ⟨hdb, hfaults⟩ := @messageUpsertRows_refused cj m c hid
    rw [hdb, hfaults]
    exact ⟨hq, fun _ => hid.elim .inl fun h => .inr (.inl h), fun _ => hm⟩
  · simp only [SticonWrite.Agrees, ← or_assoc, hid, false_or]
    cases hrep : messageReplaceJson m with
    | none =>
      obtain ⟨hq', hiff⟩ := messageUpsertRows_plain hq hm hid hrep
      refine ⟨hq', hiff.trans ?_⟩
      cases c.db.messages m.id <;> simp
    | some replace =>
      obtain ⟨hq', hiff⟩ := messageUpsertRows_rebuilt hq hm hid hrep
      refine ⟨hq', hiff.trans ?_⟩
      cases c.db.messages m.id <;> simp

end Upsert

/-- From rows that mirror, a step keeps the mirror exactly where its writer agrees. -/
theorem sticonWrites_step {c c' : Conn SticonDb} {w : SticonWrite} (hq : c.faults = [])
    (hm : Mirrors cj c.db) (h : (sticonWrites cj).step c w = some c') :
    c'.faults = [] ∧ (Mirrors cj c'.db ↔ w.Agrees cj c.db) := by
  obtain rfl := Option.some.inj h
  cases w with
  | upsert m => exact messageUpsertRows_quiet hq hm
  | plaintext id text raw replace status =>
    exact rebuildUpdate_quiet (f := fun r => { r with
      text := some text, rawJson := some raw, decryptStatus := status, replaceJson := some replace })
      replace none (fun _ => rfl) (fun _ => rfl) hq hm
  | rawJson id raw replace =>
    exact rebuildUpdate_quiet (f := fun r => { r with
      rawJson := some raw, replaceJson := some replace })
      replace (rawOwnership cj raw) (fun _ => rfl) (fun _ => rfl) hq hm

/-! ## The spans the renderer reads -/

variable (cj) in
/-- The sticons a REPLACE names, each with the span beside its names. -/
def namedSpans (replace : Option JsonText) : List SticonSpan :=
  (replace.elim [] (storedResources cj)).filterMap fun res =>
    match resourceName "productId" res, resourceName "sticonId" res with
    | some pkg, some sid => some ⟨pkg, sid, resourceSpan (some res)⟩
    | _, _ => none

theorem pairwise_resourceRows (id : String) :
    ∀ (rs : List Json) (n : Nat), (resourceRows id n rs).Pairwise (·.ordinal ≤ ·.ordinal)
  | [], _ => .nil
  | res :: rs, n => by
    rw [resourceRows, List.pairwise_append]
    refine ⟨?_, pairwise_resourceRows id rs (n + 1), fun s hs t ht => ?_⟩
    · split
      · exact List.pairwise_singleton _ _
      · exact .nil
    · have hs' : s ∈ resourceRows id n [res] := by
        rw [resourceRows, List.mem_append]
        exact .inl hs
      have := resourceRows_single hs'
      have := (ordinal_of_mem_resourceRows ht).2
      omega

/-- A row finds the resource it was made of at its ordinal. -/
theorem map_resourceRows (id : String) (all : List Json) :
    ∀ (rs : List Json) (n : Nat), all.drop n = rs →
      (resourceRows id n rs).map (fun s =>
        (⟨s.packageId, s.sticonId, resourceSpan all[s.ordinal]?⟩ : SticonSpan)) =
      rs.filterMap fun res =>
        match resourceName "productId" res, resourceName "sticonId" res with
        | some pkg, some sid => some ⟨pkg, sid, resourceSpan (some res)⟩
        | _, _ => none
  | [], _, _ => rfl
  | res :: rs, n, h => by
    have hres : all[n]? = some res := by
      rw [← List.head?_drop, h]
      rfl
    have hrest : all.drop (n + 1) = rs := by
      rw [← List.tail_drop, h]
      rfl
    rw [resourceRows, List.map_append, map_resourceRows id all rs (n + 1) hrest,
      List.filterMap_cons]
    cases resourceName "productId" res with
    | none => rfl
    | some pkg =>
      cases resourceName "sticonId" res with
      | none => rfl
      | some sid =>
        simp only [List.map_cons, List.map_nil, hres]
        rfl

/-- The resources stored are those the query looks spans up in. -/
theorem storedResources_children {replace : JsonText} (h : storedResources cj replace ≠ []) :
    sticonResources (replace.parse cj) = some (.arr (storedResources cj replace)) := by
  unfold storedResources at h ⊢
  split at h
  · exact absurd rfl h
  · rename_i hempty
    rw [if_neg hempty]
    cases hres : sticonResources (replace.parse cj) with
    | none => rw [hres] at h; exact absurd rfl h
    | some j =>
      rw [hres] at h
      cases j with
      | arr xs => rfl
      | _ => exact absurd rfl h

theorem getMessageSticons_of_rows {d : SticonDb} {id : String} {r : MessageRow}
    (hr : d.messages id = some r)
    (h : d.sticons.filter (·.messageId = id) = namedRows cj id r.replaceJson) :
    getMessageSticons cj id d = namedSpans cj r.replaceJson := by
  unfold getMessageSticons selectMessageSticons namedSpans
  rw [hr, h]
  simp only [Option.isSome_some, if_true, Option.bind_some, namedRows]
  rw [(pairwise_resourceRows id _ 0).insertionSort_eq]
  cases hrep : r.replaceJson with
  | none => rfl
  | some replace =>
    simp only [Option.elim_some, Option.bind_some]
    by_cases hnil : storedResources cj replace = []
    · rw [hnil]
      rfl
    · rw [storedResources_children hnil]
      exact map_resourceRows id _ _ 0 rfl

theorem getMessageSticons_of_says {d : SticonDb} {id : String} {r : MessageRow}
    (hr : d.messages id = some r) (h : Says cj d id r.replaceJson r.sticonOwnership) :
    getMessageSticons cj id d = namedSpans cj r.replaceJson :=
  getMessageSticons_of_rows hr h.sticons

/-! ## Every run -/

variable (cj) in
/-- The rows mirror what is stored, and each sticon is read with its own span. -/
def MirrorsSpans (d : SticonDb) : Prop :=
  Mirrors cj d ∧
    ∀ id r, d.messages id = some r → getMessageSticons cj id d = namedSpans cj r.replaceJson

theorem Mirrors.spans {d : SticonDb} (h : Mirrors cj d) : MirrorsSpans cj d :=
  ⟨h, fun id r hr => getMessageSticons_of_says hr (h id r hr)⟩

theorem mirrors_run {c : Conn SticonDb} {ws : List SticonWrite} (hq : c.faults = [])
    (hm : Mirrors cj c.db) :
    (∀ us, us <+: ws → ∀ c', (sticonWrites cj).run c us = some c' → MirrorsSpans cj c'.db) ↔
      (sticonWrites cj).Meets (fun c w => w.Agrees cj c.db) c ws := by
  induction ws generalizing c with
  | nil =>
    refine ⟨fun _ => trivial, fun _ us hus c' hrun => ?_⟩
    obtain rfl := List.prefix_nil.mp hus
    obtain rfl := Option.some.inj hrun
    exact hm.spans
  | cons w ws ih =>
    obtain ⟨c₁, hstep⟩ : ∃ c₁, (sticonWrites cj).step c w = some c₁ := ⟨_, rfl⟩
    obtain ⟨hq₁, hiff⟩ := sticonWrites_step hq hm hstep
    constructor
    · intro h
      have hm₁ : Mirrors cj c₁.db :=
        (h [w] ⟨ws, rfl⟩ c₁ (Machine.run_cons_some.mpr ⟨c₁, hstep, rfl⟩)).1
      refine ⟨hiff.mp hm₁, fun c₂ hstep₂ => ?_⟩
      obtain rfl := Option.some.inj (hstep.symm.trans hstep₂)
      refine (ih hq₁ hm₁).mp fun us hus c' hrun => ?_
      obtain ⟨rest, rfl⟩ := hus
      exact h (w :: us) ⟨rest, rfl⟩ c' (Machine.run_cons_some.mpr ⟨c₁, hstep, hrun⟩)
    · rintro ⟨hagrees, hmeets⟩ us hus c' hrun
      cases us with
      | nil =>
        obtain rfl := Option.some.inj hrun
        exact hm.spans
      | cons u us =>
        obtain ⟨rfl, hrest⟩ := List.cons_prefix_cons.mp hus
        obtain ⟨c₂, hstep₂, hrun⟩ := Machine.run_cons_some.mp hrun
        obtain rfl := Option.some.inj (hstep.symm.trans hstep₂)
        exact (ih hq₁ (hiff.mpr hagrees)).mpr (hmeets c₁ hstep) us hrest c' hrun

/-- The tables as they are created. -/
def emptySticonDb : SticonDb where
  messageBoxes := fun _ => none
  messages := fun _ => none
  messageBoxReaders := fun _ => none

/-- In a run of the writers on empty tables, no statement failing, the rows mirror what is
stored everywhere exactly where each writer agrees. -/
theorem sticon_rows_mirror (cj : Cjson) (ws : List SticonWrite) :
    (∀ us, us <+: ws → ∀ c, (sticonWrites cj).run { db := emptySticonDb } us = some c →
      MirrorsSpans cj c.db) ↔
    (sticonWrites cj).Meets (fun c w => w.Agrees cj c.db) { db := emptySticonDb } ws :=
  mirrors_run rfl fun _ _ h => nomatch h

/-- A REPLACE of one sticon for the first three characters. -/
def replaceOf (productId sticonId : String) : Json :=
  .obj [("sticon", .obj [("resources", .arr [.obj [("productId", .str productId),
    ("sticonId", .str sticonId), ("S", .num 0), ("E", .num 3)]])])]

/-- cJSON on two such values. -/
def replaceJson : Cjson where
  parse s := [replaceOf "p1" "1", replaceOf "p2" "2"].find? fun j => j.printUnformatted == s
  print := Json.printUnformatted

def sticonMessage (replace : Json) : TalkMessage where
  id := "m1"
  contentMetadata := some (.obj [("REPLACE", replace)])
  chatId := some "u1"
  raw := .obj [("id", .str "m1")]

/-- A message that comes again with another REPLACE. -/
def replacedAgain : List SticonWrite :=
  [.upsert (sticonMessage (replaceOf "p1" "1")), .upsert (sticonMessage (replaceOf "p2" "2"))]

/-- The rows of the message name the new sticon, its row the old one. -/
theorem sticon_rows_differ :
    ¬ ∀ us, us <+: replacedAgain → ∀ c,
      (sticonWrites replaceJson).run { db := emptySticonDb } us = some c →
      MirrorsSpans replaceJson c.db := by
  intro h
  obtain ⟨c, hrun⟩ : ∃ c, (sticonWrites replaceJson).run { db := emptySticonDb } replacedAgain =
      some c := ⟨_, rfl⟩
  have hdiffer : ((sticonWrites replaceJson).run { db := emptySticonDb } replacedAgain).bind
      (fun c => (c.db.messages "m1").map fun r =>
        (namedRows replaceJson "m1" r.replaceJson, c.db.sticons.filter (·.messageId = "m1"))) =
      some ([⟨"m1", 0, "p1", "1"⟩], [⟨"m1", 0, "p2", "2"⟩]) := by decide
  rw [hrun, Option.bind_some] at hdiffer
  obtain ⟨r, hr, hrows⟩ := Option.map_eq_some_iff.mp hdiffer
  rw [Prod.mk.injEq, ((h _ (List.prefix_refl _) c hrun).1 "m1" r hr).sticons] at hrows
  exact absurd (hrows.1.symm.trans hrows.2) (by decide)

end Enil
