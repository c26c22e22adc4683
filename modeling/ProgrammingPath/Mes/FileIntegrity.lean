import ProgrammingPath.Lib.Run
import ProgrammingPath.Mes.FileDown

/-!
# What a finished download installs

The server answers a request with the name of the file, the offset and the bytes, but a download
goes by its own counters: it appends whatever arrives, and advances by what it asked for. So an
installed file is the server's file only if what arrives is what was asked for. `installs_of_meets`
shows that this is enough, for any number of downloads, any order of events and any loss of the
connection.

Since every response goes to every download, the condition is about all of them at once: while a
file comes in, no download of another file may be alive.
-/

namespace ProgrammingPath.Mes

open ProgrammingPath.Qt ProgrammingPath.Lib

/-! ## Runs -/

/-- The downloads, with everything they did. -/
structure DownRun where
  downs : Downloads := {}
  effects : List DownEffect := []
  deriving DecidableEq

namespace DownRun

/-- The server or the operator starts a download, a response arrives on B, or B is closed. -/
inductive Act where
  | start (name : QString) (ver : QByteArray)
  | frame (pack : MESPack)
  | closedB
  deriving DecidableEq, Repr

/-- The downloads take a signal. -/
def take (s : DownRun) (signal : Signal) : DownRun :=
  { downs := (s.downs.onSignal signal).1, effects := s.effects ++ (s.downs.onSignal signal).2 }

/-- The signals among some effects. -/
def signals (effects : List Effect) : List Signal :=
  effects.filterMap fun e => match e with | .emit signal => some signal | _ => none

def takeEffects (s : DownRun) (effects : List Effect) : DownRun := (signals effects).foldl take s

def step (s : DownRun) : Act → Option DownRun
  | .start name ver => some
    { downs := (s.downs.start name ver).1, effects := s.effects ++ (s.downs.start name ver).2 }
  | .frame pack => some (s.takeEffects (Net.protocolFileDownParse pack))
  | .closedB => some (s.takeEffects (Net.slotClosedB {}).2)

/-! ## The condition -/

/-- What the server says is true: the size of the file, and the bytes at an offset. -/
def Honest (server : QString → QByteArray) : Signal → Prop
  | .fileDown r => r.result = .fileDownAllow ∨ r.result = .fileDownSpaceSmall →
    r.lastFileSize.toNat = (server r.fileName).length
  | .fileDownStream r => r.result = .fileDownData →
    r.data <+: (server r.fileName).drop r.offsetAddr.toNat
  | _ => True

/-- A response fits a download: the permission is for its file; a packet came through undamaged,
and has the name, the offset and the length that were asked for after the permission came. -/
def Fits (server : QString → QByteArray) (d : MESFileDown) : Signal → Prop
  | .fileDown r => r.result = .fileDownAllow ∨ r.result = .fileDownSpaceSmall → r.fileName = d.name
  | .fileDownStream r => r.result = .fileDownData ∨ r.result = .checkSumErr →
    r.result = .fileDownData ∧ r.fileName = d.name ∧ r.offsetAddr = d.offsetAddr ∧
      r.data.length = d.downLen.toNat ∧ d.fileSize.toNat = (server d.name).length
  | _ => True

/-- The condition on a step: no file is downloaded twice at a time, the server is honest, and a
response fits every download that is alive. -/
def DownOk (server : QString → QByteArray) (s : DownRun) : Act → Prop
  | .start name _ => ∀ d ∈ s.downs.active, d.name ≠ name
  | .frame pack => ∀ signal ∈ signals (Net.protocolFileDownParse pack),
    Honest server signal ∧ ∀ d ∈ s.downs.active, Fits server d signal
  | .closedB => True

section

variable (server : QString → QByteArray)

instance : (signal : Signal) → Decidable (Honest server signal)
  | .fileDown _ => inferInstanceAs (Decidable (_ ∨ _ → _))
  | .fileDownStream _ => inferInstanceAs (Decidable (_ → _ <+: _))
  | .signalReg _ _ _ | .produce _ _ | .icCard _ _ | .defectiveInfo _ | .adjMachine _ | .other _
  | .qualityRegulate _ | .pda _ | .wifiSignal _ | .order _ | .controlDev _ | .mail _ | .closeA
  | .closeB | .connectBSucess => inferInstanceAs (Decidable True)

instance (d : MESFileDown) : (signal : Signal) → Decidable (Fits server d signal)
  | .fileDown _ => inferInstanceAs (Decidable (_ ∨ _ → _))
  | .fileDownStream _ => inferInstanceAs (Decidable (_ ∨ _ → _ ∧ _ ∧ _ ∧ _ ∧ _))
  | .signalReg _ _ _ | .produce _ _ | .icCard _ _ | .defectiveInfo _ | .adjMachine _ | .other _
  | .qualityRegulate _ | .pda _ | .wifiSignal _ | .order _ | .controlDev _ | .mail _ | .closeA
  | .closeB | .connectBSucess => inferInstanceAs (Decidable True)

instance (s : DownRun) : (a : Act) → Decidable (s.DownOk server a)
  | .start _ _ => inferInstanceAs (Decidable (∀ _ ∈ _, _))
  | .frame _ => inferInstanceAs (Decidable (∀ _ ∈ _, _ ∧ ∀ _ ∈ _, _))
  | .closedB => inferInstanceAs (Decidable True)

end

end DownRun

/-! ## Progress of one download -/

/-- What is in the cache for a download: the first `offsetAddr` bytes of the file. -/
structure Fetching (server : QString → QByteArray) (cache : AutoTable CacheFile.id)
    (d : MESFileDown) : Prop where
  stored : ∃ f ∈ cache.rows, f.id = d.file ∧ f.name = d.name ∧
    f.data = (server d.name).take d.offsetAddr.toNat
  pos : d.pos = d.offsetAddr.toNat
  size : (d.fileSize = 0 ∧ d.offsetAddr = 0) ∨ d.fileSize.toNat = (server d.name).length
  offset : d.offsetAddr = 0 ∨ d.offsetAddr < d.fileSize
  len : d.downLen = MESFileDown.packLen d.fileSize d.offsetAddr

theorem MESFileDown.toNat_packLen {fileSize offsetAddr : UInt32} (h : offsetAddr ≤ fileSize) :
    (packLen fileSize offsetAddr).toNat = min 1024 (fileSize.toNat - offsetAddr.toNat) := by
  have hsub := UInt32.toNat_sub_of_le _ _ h
  have hmax : (1024 : UInt32).toNat = 1024 := rfl
  unfold packLen
  split
  · next hlt =>
    rw [gt_iff_lt, UInt32.lt_iff_toNat_lt, hsub] at hlt
    omega
  · next hle =>
    rw [gt_iff_lt, UInt32.lt_iff_toNat_lt, hsub] at hle
    omega

namespace MESFileDown

/-- What a permission does. -/
theorem response_of_allow {d : MESFileDown} {r : MESFileDownResponse}
    (h : r.result = .fileDownAllow ∨ r.result = .fileDownSpaceSmall) :
    d.sigMESFileDownResponse r =
      let offsetAddr := if r.lastFileSize ≤ d.offsetAddr then 0 else d.offsetAddr
      (some { d with
          fileSize := r.lastFileSize, offsetAddr, downLen := packLen r.lastFileSize offsetAddr },
        [.request (.fileDownStream d.name offsetAddr
          (packLen r.lastFileSize offsetAddr).toUInt16)]) := by
  rcases h with h | h
  · simp only [sigMESFileDownResponse, h]
  · simp only [sigMESFileDownResponse, h]

theorem response_of_not_allow {d : MESFileDown} {r : MESFileDownResponse}
    (h : ¬ (r.result = .fileDownAllow ∨ r.result = .fileDownSpaceSmall)) :
    d.sigMESFileDownResponse r = (none, []) := by
  unfold sigMESFileDownResponse
  split
  · next heq => exact absurd (.inl heq) h
  · next heq => exact absurd (.inr heq) h
  · rfl

/-- Anything but data makes a download give up. -/
theorem stream_of_not_data {cache : AutoTable CacheFile.id} {d : MESFileDown}
    {r : MESFileDownStreamResponse} (h : ¬ (r.result = .fileDownData ∨ r.result = .checkSumErr)) :
    d.sigMESFileDownStreamResponse cache r = (cache, none, []) := by
  unfold sigMESFileDownStreamResponse
  split
  · next heq => exact absurd (.inl heq) h
  · next heq => exact absurd (.inr heq) h
  · rfl

end MESFileDown

/-- Appending to a file. -/
theorem CacheFile.data_write_end (f : CacheFile) (data : QByteArray) :
    (f.write f.data.length data).data = f.data ++ data := by
  simp [CacheFile.write]

namespace Fetching

variable {server : QString → QByteArray} {cache : AutoTable CacheFile.id} {d : MESFileDown}

theorem offset_le (h : Fetching server cache d) : d.offsetAddr ≤ d.fileSize := by
  rcases h.offset with h0 | hlt
  · rw [h0]
    exact UInt32.zero_le
  · exact UInt32.le_of_lt hlt

/-- A permission for the file, also a repeated one, leaves the offset where it is. -/
theorem permit (h : Fetching server cache d) {r : MESFileDownResponse}
    (hsize : r.lastFileSize.toNat = (server d.name).length) :
    Fetching server cache { d with
      fileSize := r.lastFileSize
      offsetAddr := if r.lastFileSize ≤ d.offsetAddr then 0 else d.offsetAddr
      downLen := MESFileDown.packLen r.lastFileSize
        (if r.lastFileSize ≤ d.offsetAddr then 0 else d.offsetAddr) } := by
  -- a second start response does not reset the offset, since the size is still the same
  have hkeep : (if r.lastFileSize ≤ d.offsetAddr then 0 else d.offsetAddr) = d.offsetAddr := by
    split
    · next hle =>
      rcases h.offset with h0 | hlt
      · exact h0.symm
      · rcases h.size with ⟨-, h0⟩ | hsame
        · exact h0.symm
        · have heq : r.lastFileSize = d.fileSize := UInt32.toNat_inj.mp (hsize.trans hsame.symm)
          rw [heq] at hle
          exact absurd hlt (UInt32.not_lt.mpr hle)
    · rfl
  rw [hkeep]
  refine ⟨h.stored, h.pos, .inr hsize, ?_, rfl⟩
  rcases h.offset with h0 | hlt
  · exact .inl h0
  · rcases h.size with ⟨-, h0⟩ | hsame
    · exact .inl h0
    · right
      rw [UInt32.lt_iff_toNat_lt] at hlt ⊢
      show d.offsetAddr.toNat < r.lastFileSize.toNat
      omega

/-- The file after a packet that fits: the bytes up to the new offset. -/
theorem data_next (h : Fetching server cache d) {data : QByteArray} {f : CacheFile}
    (hsize : d.fileSize.toNat = (server d.name).length)
    (hlen : data.length = d.downLen.toNat)
    (hdata : data <+: (server d.name).drop d.offsetAddr.toNat)
    (hf : f.data = (server d.name).take d.offsetAddr.toNat) :
    (d.offsetAddr + d.downLen).toNat = d.offsetAddr.toNat + data.length ∧
      (f.write d.pos data).data = (server d.name).take (d.offsetAddr + d.downLen).toNat ∧
      d.offsetAddr + d.downLen ≤ d.fileSize := by
  have hle := UInt32.le_iff_toNat_le.mp h.offset_le
  have hpack := MESFileDown.toNat_packLen h.offset_le
  rw [← h.len] at hpack
  have hbound := d.fileSize.toNat_lt
  have hadd : (d.offsetAddr + d.downLen).toNat = d.offsetAddr.toNat + data.length := by
    rw [UInt32.toNat_add, hlen]
    omega
  refine ⟨hadd, ?_, ?_⟩
  · have hpos : d.pos = f.data.length := by
      rw [hf, List.length_take, h.pos]
      omega
    rw [hpos, CacheFile.data_write_end, hf, hadd, List.take_add]
    congr 1
    exact List.prefix_iff_eq_take.mp hdata
  · rw [UInt32.le_iff_toNat_le, hadd]
    omega

end Fetching

/-! ## All downloads -/

/-- A copy over the configuration file is what it should be. -/
def DownEffect.InstallOk (server : QString → QByteArray) : DownEffect → Prop
  | .install name fileSize data =>
    data = some (server name) ∧ (server name).length = fileSize.toNat
  | .request _ => True

structure Intact (server : QString → QByteArray) (s : DownRun) : Prop where
  unique : ∀ f ∈ s.downs.cache.rows, ∀ g ∈ s.downs.cache.rows, f.name = g.name → f = g
  names : (s.downs.active.map (·.name)).Nodup
  fetching : ∀ d ∈ s.downs.active, Fetching server s.downs.cache d
  installs : ∀ e ∈ s.effects, e.InstallOk server

namespace Intact

variable {server : QString → QByteArray} {s : DownRun}

/-- If all downloads are of one file, there is at most one. -/
theorem active_cases (h : Intact server s) {name : QString}
    (hname : ∀ d ∈ s.downs.active, name = d.name) :
    s.downs.active = [] ∨ ∃ d, s.downs.active = [d] := by
  have hnames := h.names
  match hactive : s.downs.active with
  | [] => exact .inl rfl
  | [d] => exact .inr ⟨d, rfl⟩
  | d :: e :: rest =>
    rw [hactive] at hnames hname
    have heq : d.name = e.name := (hname d (by simp)).symm.trans (hname e (by simp))
    simp [heq] at hnames

/-- All downloads are given up. -/
theorem give_up (h : Intact server s) {effects : List DownEffect} (he : effects = []) :
    Intact server { downs := { s.downs with active := [] }, effects := s.effects ++ effects } := by
  refine ⟨h.unique, List.nodup_nil, fun d hd => absurd hd List.not_mem_nil, ?_⟩
  rw [he, List.append_nil]
  exact h.installs

/-- A start response that fits every download. -/
theorem takeFileDown (h : Intact server s) {r : MESFileDownResponse}
    (hhonest : DownRun.Honest server (.fileDown r))
    (hfits : ∀ d ∈ s.downs.active, DownRun.Fits server d (.fileDown r)) :
    Intact server (s.take (.fileDown r)) := by
  by_cases hallow : r.result = .fileDownAllow ∨ r.result = .fileDownSpaceSmall
  · -- all downloads have the name in the response, so there is at most one
    have hname : ∀ d ∈ s.downs.active, r.fileName = d.name := fun d hd => hfits d hd hallow
    rcases h.active_cases hname with hnil | ⟨d, hone⟩
    · have htake : s.take (.fileDown r) = s := by
        simp [DownRun.take, Downloads.onSignal, Downloads.onFileDown, hnil]
        rw [← hnil]
      rw [htake]
      exact h
    · have hd : d ∈ s.downs.active := by simp [hone]
      have hsize := hhonest hallow
      rw [hname d hd] at hsize
      have hnext := (h.fetching d hd).permit hsize
      refine ⟨h.unique, ?_, ?_, ?_⟩
      · simp [DownRun.take, Downloads.onSignal, Downloads.onFileDown, hone,
          MESFileDown.response_of_allow hallow]
      · intro d' hd'
        simp only [DownRun.take, Downloads.onSignal, Downloads.onFileDown, hone,
          List.filterMap_cons, MESFileDown.response_of_allow hallow, List.filterMap_nil,
          List.mem_singleton] at hd'
        rw [hd']
        exact hnext
      · intro e he
        simp only [DownRun.take, Downloads.onSignal, Downloads.onFileDown, hone,
          List.flatMap_cons, MESFileDown.response_of_allow hallow, List.flatMap_nil,
          List.append_nil, List.mem_append, List.mem_singleton] at he
        rcases he with he | rfl
        · exact h.installs e he
        · trivial
  · have htake : s.take (.fileDown r) =
        { downs := { s.downs with active := [] }, effects := s.effects ++ [] } := by
      simp [DownRun.take, Downloads.onSignal, Downloads.onFileDown,
        MESFileDown.response_of_not_allow hallow]
    rw [htake]
    exact h.give_up rfl

/-- Writing to a file changes no names. -/
theorem unique_write {cache : AutoTable CacheFile.id} (d : MESFileDown) (data : QByteArray)
    (h : ∀ f ∈ cache.rows, ∀ g ∈ cache.rows, f.name = g.name → f = g) :
    ∀ f ∈ (d.write cache data).rows, ∀ g ∈ (d.write cache data).rows, f.name = g.name → f = g := by
  have hname : ∀ f : CacheFile,
      (if f.id == d.file then f.write d.pos data else f).name = f.name := by
    intro f
    split
    · rfl
    · rfl
  intro f' hf' g' hg' heq
  obtain ⟨f, hf, rfl⟩ := AutoTable.mem_update.mp hf'
  obtain ⟨g, hg, rfl⟩ := AutoTable.mem_update.mp hg'
  rw [hname, hname] at heq
  rw [h f hf g hg heq]

/-- A name finds the one file that has it. -/
theorem find_of_unique {rows : List CacheFile} {f : CacheFile} {name : QString}
    (h : ∀ f ∈ rows, ∀ g ∈ rows, f.name = g.name → f = g) (hf : f ∈ rows) (hname : f.name = name) :
    rows.find? (fun f => f.name == name) = some f := by
  have hsome : (rows.find? (fun f => f.name == name)).isSome := by
    rw [List.find?_isSome]
    exact ⟨f, hf, by simpa using hname⟩
  obtain ⟨g, hg⟩ := Option.isSome_iff_exists.mp hsome
  have hgname : g.name = name := by simpa using List.find?_some hg
  rw [hg, h g (List.mem_of_find?_eq_some hg) f hf (hgname.trans hname.symm)]

/-- A packet that fits the one download there is, and more are to come. -/
theorem take_more (h : Intact server s) {d : MESFileDown} (hone : s.downs.active = [d])
    {r : MESFileDownStreamResponse} (hresult : r.result = .fileDownData)
    (hsize : d.fileSize.toNat = (server d.name).length) (hlen : r.data.length = d.downLen.toNat)
    (hbytes : r.data <+: (server d.name).drop d.offsetAddr.toNat)
    (hmore : MESFileDown.packLen d.fileSize (d.offsetAddr + d.downLen) ≠ 0) :
    Intact server (s.take (.fileDownStream r)) := by
  have hfetch := h.fetching d (by simp [hone])
  obtain ⟨f, hf, hid, hfname, hfdata⟩ := hfetch.stored
  obtain ⟨hadd, hnext, hle⟩ := hfetch.data_next hsize hlen hbytes hfdata
  have hmem : f.write d.pos r.data ∈ (d.write s.downs.cache r.data).rows :=
    AutoTable.mem_update.mpr ⟨f, hf, by rw [if_pos (by simpa using hid)]⟩
  have htake : s.take (.fileDownStream r) =
      { downs :=
          { cache := d.write s.downs.cache r.data
            active := [{ d with
              pos := d.pos + r.data.length
              offsetAddr := d.offsetAddr + d.downLen
              downLen := MESFileDown.packLen d.fileSize (d.offsetAddr + d.downLen) }] }
        effects := s.effects ++ [.request (.fileDownStream d.name (d.offsetAddr + d.downLen)
          (MESFileDown.packLen d.fileSize (d.offsetAddr + d.downLen)).toUInt16)] } := by
    simp [DownRun.take, Downloads.onSignal, Downloads.onFileDownStream, Downloads.streamAll, hone,
      MESFileDown.sigMESFileDownStreamResponse, hresult, hmore]
  rw [htake]
  refine ⟨unique_write d r.data h.unique, by simp, ?_, ?_⟩
  · intro d' hd'
    rw [List.mem_singleton.mp hd']
    refine ⟨⟨_, hmem, hid, hfname, hnext⟩, ?_, .inr hsize, .inr ?_, rfl⟩
    · show d.pos + r.data.length = (d.offsetAddr + d.downLen).toNat
      rw [hadd, hfetch.pos]
    · -- something is left to fetch, so the new offset is inside the file
      have hpack := MESFileDown.toNat_packLen hle
      have hpos := UInt32.toNat_inj.not.mpr hmore
      rw [hpack, UInt32.toNat_zero] at hpos
      show d.offsetAddr + d.downLen < d.fileSize
      rw [UInt32.lt_iff_toNat_lt]
      omega
  · intro e he
    rcases List.mem_append.mp he with he | he
    · exact h.installs e he
    · rw [List.mem_singleton.mp he]
      trivial

/-- A packet that fits the one download there is, and is the last one: the cache holds the whole
file when it is copied. -/
theorem take_last (h : Intact server s) {d : MESFileDown} (hone : s.downs.active = [d])
    {r : MESFileDownStreamResponse} (hresult : r.result = .fileDownData)
    (hsize : d.fileSize.toNat = (server d.name).length) (hlen : r.data.length = d.downLen.toNat)
    (hbytes : r.data <+: (server d.name).drop d.offsetAddr.toNat)
    (hlast : MESFileDown.packLen d.fileSize (d.offsetAddr + d.downLen) = 0) :
    Intact server (s.take (.fileDownStream r)) := by
  have hfetch := h.fetching d (by simp [hone])
  obtain ⟨f, hf, hid, hfname, hfdata⟩ := hfetch.stored
  obtain ⟨-, hnext, hle⟩ := hfetch.data_next hsize hlen hbytes hfdata
  -- nothing is left to fetch, so the new offset is the end of the file
  have hall : (d.offsetAddr + d.downLen).toNat = (server d.name).length := by
    have hpack := MESFileDown.toNat_packLen hle
    rw [hlast, UInt32.toNat_zero] at hpack
    rw [UInt32.le_iff_toNat_le] at hle
    omega
  rw [hall, List.take_length] at hnext
  have hmem : f.write d.pos r.data ∈ (d.write s.downs.cache r.data).rows :=
    AutoTable.mem_update.mpr ⟨f, hf, by rw [if_pos (by simpa using hid)]⟩
  have hunique := unique_write d r.data h.unique
  have htake : s.take (.fileDownStream r) =
      { downs :=
          { cache := (d.write s.downs.cache r.data).delete (fun f => f.name == d.name)
            active := [] }
        effects := s.effects ++ [.install d.name d.fileSize (some (server d.name))] } := by
    simp [DownRun.take, Downloads.onSignal, Downloads.onFileDownStream, Downloads.streamAll, hone,
      MESFileDown.sigMESFileDownStreamResponse, hresult, hlast,
      find_of_unique hunique hmem hfname, hnext]
  rw [htake]
  refine ⟨?_, List.nodup_nil, fun _ hd => absurd hd List.not_mem_nil, ?_⟩
  · intro f hf g hg
    exact hunique f (AutoTable.mem_delete.mp hf).1 g (AutoTable.mem_delete.mp hg).1
  · intro e he
    rcases List.mem_append.mp he with he | he
    · exact h.installs e he
    · rw [List.mem_singleton.mp he]
      exact ⟨rfl, hsize.symm⟩

/-- Every download gives up on a packet that is not data. -/
theorem streamAll_of_not_data {r : MESFileDownStreamResponse}
    (h : ¬ (r.result = .fileDownData ∨ r.result = .checkSumErr)) (cache : AutoTable CacheFile.id)
    (ds : List MESFileDown) : Downloads.streamAll r cache ds = (cache, [], []) := by
  induction ds generalizing cache with
  | nil => rfl
  | cons d ds ih => simp [Downloads.streamAll, MESFileDown.stream_of_not_data h, ih]

/-- A packet that fits every download. -/
theorem takeFileDownStream (h : Intact server s) {r : MESFileDownStreamResponse}
    (hhonest : DownRun.Honest server (.fileDownStream r))
    (hfits : ∀ d ∈ s.downs.active, DownRun.Fits server d (.fileDownStream r)) :
    Intact server (s.take (.fileDownStream r)) := by
  by_cases hdata : r.result = .fileDownData ∨ r.result = .checkSumErr
  · have hname : ∀ d ∈ s.downs.active, r.fileName = d.name := fun d hd => (hfits d hd hdata).2.1
    rcases h.active_cases hname with hnil | ⟨d, hone⟩
    · have htake : s.take (.fileDownStream r) = s := by
        simp [DownRun.take, Downloads.onSignal, Downloads.onFileDownStream, Downloads.streamAll, hnil]
        rw [← hnil]
      rw [htake]
      exact h
    · have hd : d ∈ s.downs.active := by simp [hone]
      obtain ⟨hresult, -, hoffset, hlen, hsize⟩ := hfits d hd hdata
      have hbytes := hhonest hresult
      rw [hname d hd, hoffset] at hbytes
      by_cases hmore : MESFileDown.packLen d.fileSize (d.offsetAddr + d.downLen) = 0
      · exact h.take_last hone hresult hsize hlen hbytes hmore
      · exact h.take_more hone hresult hsize hlen hbytes hmore
  · have htake : s.take (.fileDownStream r) =
        { downs := { s.downs with active := [] }, effects := s.effects ++ [] } := by
      simp [DownRun.take, Downloads.onSignal, Downloads.onFileDownStream,
        streamAll_of_not_data hdata]
    rw [htake]
    exact h.give_up rfl

/-- Opening a file for writing: it is empty then, and the other files stay. -/
theorem mem_open {cache : AutoTable CacheFile.id} (name : QString)
    (h : ∀ f ∈ cache.rows, ∀ g ∈ cache.rows, f.name = g.name → f = g) :
    ∃ n, ∀ f, f ∈ (cache.save (fun f => f.name == name) (fun n => { id := n, name := name })
        (fun _ => rfl)).rows ↔
      (f ∈ cache.rows ∧ f.name ≠ name) ∨ f = { id := n, name := name } := by
  unfold AutoTable.save
  cases hfind : cache.rows.find? (fun f => f.name == name) with
  | none =>
    refine ⟨cache.seq + 1, fun f => ?_⟩
    have hother : ∀ g ∈ cache.rows, g.name ≠ name := by simpa using hfind
    rw [AutoTable.mem_insert]
    constructor
    · rintro (hf | hf)
      · exact .inl ⟨hf, hother f hf⟩
      · exact .inr hf
    · rintro (⟨hf, -⟩ | hf)
      · exact .inl hf
      · exact .inr hf
  | some old =>
    have hold := List.mem_of_find?_eq_some hfind
    have hname : old.name = name := by simpa using List.find?_some hfind
    refine ⟨old.id, fun f => ?_⟩
    rw [AutoTable.mem_update]
    constructor
    · rintro ⟨g, hg, rfl⟩
      by_cases hid : g.id = old.id
      · exact .inr (by simp [hid])
      · left
        rw [if_neg (by simpa using hid)]
        exact ⟨hg, fun heq => hid (congrArg CacheFile.id (h g hg old hold (heq.trans hname.symm)))⟩
    · rintro (⟨hf, hne⟩ | rfl)
      · refine ⟨f, hf, if_neg ?_⟩
        intro hid
        rw [AutoTable.eq_of_key_eq hf hold (by simpa using hid)] at hne
        exact hne hname
      · exact ⟨old, hold, by simp⟩

/-- A new download begins with an empty file. -/
theorem start (h : Intact server s) {name : QString} {ver : QByteArray}
    (hnew : ∀ d ∈ s.downs.active, d.name ≠ name) :
    Intact server { downs := (s.downs.start name ver).1
                    effects := s.effects ++ (s.downs.start name ver).2 } := by
  by_cases hempty : name = []
  · have hsame : s.downs.start name ver = (s.downs, []) := by simp [Downloads.start, hempty]
    rw [hsame, List.append_nil]
    exact h
  · obtain ⟨n, hmem⟩ := mem_open name h.unique
    generalize hcache : s.downs.cache.save (fun f => f.name == name)
      (fun n => { id := n, name := name }) (fun _ => rfl) = cache at hmem
    have hunique : ∀ f ∈ cache.rows, ∀ g ∈ cache.rows, f.name = g.name → f = g := by
      intro f hf g hg heq
      rcases (hmem f).mp hf with ⟨hf, hfn⟩ | rfl <;> rcases (hmem g).mp hg with ⟨hg, hgn⟩ | rfl
      · exact h.unique f hf g hg heq
      · exact absurd heq hfn
      · exact absurd heq.symm hgn
      · rfl
    have hfile : ({ id := n, name := name } : CacheFile) ∈ cache.rows := (hmem _).mpr (.inr rfl)
    have hstart : s.downs.start name ver =
        ({ cache := cache, active := s.downs.active ++ [{ name := name, ver := ver, file := n }] },
          [.request (.fileDown name ver)]) := by
      simp [Downloads.start, hempty, hcache, find_of_unique hunique hfile rfl]
    rw [hstart]
    refine ⟨hunique, ?_, ?_, ?_⟩
    · rw [List.map_append, List.map_singleton, List.nodup_append]
      refine ⟨h.names, by simp, ?_⟩
      intro a ha b hb
      obtain ⟨d, hd, rfl⟩ := List.mem_map.mp ha
      rw [List.mem_singleton.mp hb]
      exact hnew d hd
    · intro d hd
      rcases List.mem_append.mp hd with hd | hd
      · -- the files of other downloads are not touched
        have hfetch := h.fetching d hd
        obtain ⟨f, hf, hid, hfname, hdata⟩ := hfetch.stored
        have hf' : f ∈ cache.rows := (hmem f).mpr (.inl ⟨hf, hfname ▸ hnew d hd⟩)
        exact ⟨⟨f, hf', hid, hfname, hdata⟩, hfetch.pos, hfetch.size, hfetch.offset, hfetch.len⟩
      · rw [List.mem_singleton.mp hd]
        have hzero : (0 : UInt32) = MESFileDown.packLen 0 0 := by decide
        exact ⟨⟨_, hfile, rfl, rfl, rfl⟩, rfl, .inl ⟨rfl, rfl⟩, .inl rfl, hzero⟩
    · intro e he
      rcases List.mem_append.mp he with he | he
      · exact h.installs e he
      · rw [List.mem_singleton.mp he]
        trivial

/-- A frame brings at most one response. -/
theorem parse_cases (pack : MESPack) :
    Net.protocolFileDownParse pack = [] ∨
      ∃ signal, Net.protocolFileDownParse pack = [.emit signal] ∧
        ((∃ r, signal = .fileDown r) ∨ ∃ r, signal = .fileDownStream r) := by
  unfold Net.protocolFileDownParse
  split
  · exact .inr ⟨_, rfl, .inl ⟨_, rfl⟩⟩
  · exact .inr ⟨_, rfl, .inr ⟨_, rfl⟩⟩
  · exact .inl rfl

theorem step {s' : DownRun} {a : DownRun.Act} (h : Intact server s) (hok : s.DownOk server a)
    (hs : s.step a = some s') : Intact server s' := by
  cases a with
  | start name ver =>
    cases hs
    exact h.start hok
  | frame pack =>
    cases hs
    rcases parse_cases pack with hnone | ⟨signal, hone, hsignal⟩
    · rw [hnone]
      exact h
    · obtain ⟨hhonest, hfits⟩ := hok signal (by rw [hone]; exact List.mem_singleton.mpr rfl)
      rw [hone]
      show Intact server (s.take signal)
      rcases hsignal with ⟨r, rfl⟩ | ⟨r, rfl⟩
      · exact h.takeFileDown hhonest hfits
      · exact h.takeFileDownStream hhonest hfits
  | closedB =>
    cases hs
    -- both responses say that the connection is lost, and the rest is no response
    have hfirst : Intact server (s.take (.fileDown { result := .failClose })) :=
      h.takeFileDown (by simp [DownRun.Honest]) (fun d _ => by simp [DownRun.Fits])
    have hboth := hfirst.takeFileDownStream (r := { result := .failClose })
      (by simp [DownRun.Honest]) (fun d _ => by simp [DownRun.Fits])
    have hrest : ∀ t : DownRun, t.take .closeB = t := by
      intro t
      simp [DownRun.take, Downloads.onSignal]
    show Intact server (((s.take (.fileDown { result := .failClose })).take
      (.fileDownStream { result := .failClose })).take .closeB)
    rw [hrest]
    exact hboth

end Intact

namespace DownRun

theorem intact_init (server : QString → QByteArray) : Intact server {} := by
  refine ⟨?_, List.nodup_nil, ?_, ?_⟩
  · intro f hf
    exact absurd hf List.not_mem_nil
  · intro d hd
    exact absurd hd List.not_mem_nil
  · intro e he
    exact absurd he List.not_mem_nil

/-- **Installed files.** Take any run of starts, responses and losses of the connection in which no
file is downloaded twice at a time, and every response fits every download alive at that moment.
Then every file copied over a configuration file is, byte for byte and in its whole length, the
server's file of that name. -/
theorem installs_of_meets (server : QString → QByteArray) (acts : List Act) (t : DownRun)
    (hok : Meets step (DownOk server) {} acts) (hrun : run step {} acts = some t) :
    ∀ name fileSize data, DownEffect.install name fileSize data ∈ t.effects →
      data = some (server name) ∧ (server name).length = fileSize.toNat := by
  have h : Intact server t :=
    run_invariant (fun _ _ _ h ho hs => h.step ho hs) (intact_init server) hok hrun
  intro name fileSize data he
  exact h.installs _ he

/-- The start response for the file `A`, one byte long. -/
def permitPack : MESPack :=
  { cmdSerial := 0xC0
    checkFlag := true
    body := (65 :: List.replicate 29 0) ++ List.replicate 10 0 ++ [1, 0, 0, 0] ++ List.replicate 5 0 }

/-- The packet with the byte of the file `A`. -/
def dataPack : MESPack :=
  { cmdSerial := 0xC1
    checkFlag := true
    body := (65 :: List.replicate 29 0) ++ List.replicate 4 0 ++ [7] ++ [0] }

/-- The connection is lost once, and then the file comes through. -/
theorem installs_of_meets_one_file :
    ∃ t, run step {} [.start [65] [], .closedB, .start [65] [], .frame permitPack,
        .frame dataPack] = some t ∧
      DownEffect.install [65] 1 (some [7]) ∈ t.effects ∧ [7].length = (1 : UInt32).toNat := by
  have hend : (run step {} [.start [65] [], .closedB, .start [65] [], .frame permitPack,
      .frame dataPack]).any (fun t => DownEffect.install [65] 1 (some [7]) ∈ t.effects) = true := by
    decide +kernel
  obtain ⟨t, ht, hmem⟩ := (Option.any_eq_true _ _).mp hend
  have hmem : DownEffect.install [65] 1 (some [7]) ∈ t.effects := by simpa using hmem
  exact ⟨t, ht, hmem, (installs_of_meets (fun _ => [7]) _ t (by decide +kernel) ht _ _ _ hmem).2⟩

/-- The packet with the byte is damaged: its data is dropped, but counted. -/
theorem installs_damaged :
    ¬ ∀ (server : QString → QByteArray) (acts : List Act) (t : DownRun),
      (∀ pack, Act.frame pack ∈ acts → ∀ signal ∈ signals (Net.protocolFileDownParse pack),
        Honest server signal) → run step {} acts = some t →
      ∀ name fileSize data, DownEffect.install name fileSize data ∈ t.effects →
        data = some (server name) ∧ (server name).length = fileSize.toNat := by
  intro h
  have hend : (run step {} [.start [65] [], .frame permitPack,
      .frame { dataPack with checkFlag := false }]).any
      (fun t => DownEffect.install [65] 1 (some []) ∈ t.effects) = true := by
    decide +kernel
  obtain ⟨t, ht, hmem⟩ := (Option.any_eq_true _ _).mp hend
  have hhonest : ∀ pack, Act.frame pack ∈ [Act.start [65] [], .frame permitPack,
      .frame { dataPack with checkFlag := false }] →
      ∀ signal ∈ signals (Net.protocolFileDownParse pack), Honest (fun _ => [7]) signal := by
    intro pack hpack
    simp only [List.mem_cons, reduceCtorEq, Act.frame.injEq, List.not_mem_nil, or_false,
      false_or] at hpack
    rcases hpack with rfl | rfl
    · decide +kernel
    · decide +kernel
  have hdata := (h (fun _ => [7]) _ t hhonest ht [65] 1 (some []) (by simpa using hmem)).1
  exact absurd hdata (by decide)

end DownRun

end ProgrammingPath.Mes
