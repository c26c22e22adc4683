import ProgrammingPath.Mes.Net

/-!
# Downloads (`NetCSCP/mesfiledown.h`, `NetCSCP/mesfiledown.cpp`)

A `MESFileDown` fetches one file into the cache directory, packet by packet, and copies it over the
configuration file when all bytes have come. The objects are not told apart by the network: every
response goes to every object that is still alive.

A file of the cache is known by its path and by a number (its inode): an object keeps writing to
the file it opened, also when the path was removed or given to another file. Writes take effect at
once here, although `QFile` buffers them; the buffer is flushed before the file is copied.
-/

namespace ProgrammingPath.Mes

open ProgrammingPath.Qt ProgrammingPath.Lib

structure CacheFile where
  id : Nat := 0
  name : QString
  data : QByteArray := []
  deriving DecidableEq, Repr

/-- `QFile::write` at a position; a gap is filled with zeros. -/
def CacheFile.write (file : CacheFile) (pos : Nat) (data : QByteArray) : CacheFile :=
  { file with
    data := file.data.take pos ++ List.replicate (pos - file.data.length) 0 ++ data ++
      file.data.drop (pos + data.length) }

structure MESFileDown where
  name : QString
  ver : QByteArray
  /-- the file opened, by its number -/
  file : Nat
  /-- where the next write to the file goes -/
  pos : Nat := 0
  offsetAddr : UInt32 := 0
  fileSize : UInt32 := 0
  downLen : UInt32 := 0
  deriving DecidableEq, Repr

/-- What a download does besides changing its own state. -/
inductive DownEffect where
  | request (message : Message)
  /-- the branch that copies the cache file over the configuration file: `data` is what the cache
  holds under that name, `none` if there is no such file -/
  | install (name : QString) (fileSize : UInt32) (data : Option QByteArray)
  deriving DecidableEq, Repr

namespace MESFileDown

/-- The size of the next packet: at most 1024, and no more than what is left. -/
def packLen (fileSize offsetAddr : UInt32) : UInt32 :=
  if fileSize - offsetAddr > 1024 then 1024 else fileSize - offsetAddr

/-- `MESFileDown::sig_MESFileDownResponse`; `none` says that the object was deleted. The name in
the response is not looked at. -/
def sigMESFileDownResponse (d : MESFileDown) (response : MESFileDownResponse) :
    Option MESFileDown × List DownEffect :=
  let fileSize := response.lastFileSize
  let offsetAddr := if fileSize ≤ d.offsetAddr then 0 else d.offsetAddr
  let downLen := packLen fileSize offsetAddr
  match response.result with
  | .fileDownAllow | .fileDownSpaceSmall =>
    (some { d with fileSize, offsetAddr, downLen },
      [.request (.fileDownStream d.name offsetAddr downLen.toUInt16)])
  | _ => (none, [])

/-- `file->write(data)`. -/
def write (cache : AutoTable CacheFile.id) (d : MESFileDown) (data : QByteArray) :
    AutoTable CacheFile.id :=
  cache.update (fun f => f.id == d.file) (fun f => f.write d.pos data) (fun _ => rfl)

/-- `MESFileDown::sig_MESFileDownStreamResponse`. The data is written, and the offset advances by
the length that was asked for; name, offset and length of the response are not looked at. -/
def sigMESFileDownStreamResponse (cache : AutoTable CacheFile.id) (d : MESFileDown)
    (response : MESFileDownStreamResponse) :
    AutoTable CacheFile.id × Option MESFileDown × List DownEffect :=
  match response.result with
  | .fileDownData | .checkSumErr =>
    let cache := d.write cache response.data
    let offsetAddr := d.offsetAddr + d.downLen
    let downLen := packLen d.fileSize offsetAddr
    if downLen ≠ 0 then
      (cache, some { d with pos := d.pos + response.data.length, offsetAddr, downLen },
        [.request (.fileDownStream d.name offsetAddr downLen.toUInt16)])
    else
      (cache.delete (fun f => f.name == d.name), none,
        [.install d.name d.fileSize ((cache.rows.find? (fun f => f.name == d.name)).map (·.data))])
  | _ => (cache, none, [])

end MESFileDown

structure Downloads where
  cache : AutoTable CacheFile.id := AutoTable.empty
  /-- the objects alive, in the order in which they were created -/
  active : List MESFileDown := []
  deriving DecidableEq

namespace Downloads

/-- `MESFileDown::start`. The file is opened for writing, which empties it; for an empty name the
path is the directory itself and cannot be opened. -/
def start (downs : Downloads) (name : QString) (ver : QByteArray) : Downloads × List DownEffect :=
  if name = [] then (downs, [])
  else
    let cache := downs.cache.save (fun f => f.name == name) (fun n => { id := n, name := name })
      (fun _ => rfl)
    let file := ((cache.rows.find? (fun f => f.name == name)).map (·.id)).getD 0
    ({ cache, active := downs.active ++ [{ name, ver, file }] }, [.request (.fileDown name ver)])

/-- A start response, delivered to one object after the other. -/
def onFileDown (downs : Downloads) (response : MESFileDownResponse) : Downloads × List DownEffect :=
  ({ downs with active := downs.active.filterMap (fun d => (d.sigMESFileDownResponse response).1) },
    downs.active.flatMap (fun d => (d.sigMESFileDownResponse response).2))

/-- The objects of a list take a packet in turn; they share the cache. -/
def streamAll (response : MESFileDownStreamResponse) : AutoTable CacheFile.id → List MESFileDown →
    AutoTable CacheFile.id × List MESFileDown × List DownEffect
  | cache, [] => (cache, [], [])
  | cache, d :: ds =>
    let (cache, d', effects) := d.sigMESFileDownStreamResponse cache response
    let (cache, ds', effects') := streamAll response cache ds
    (cache, d'.toList ++ ds', effects ++ effects')

/-- A packet, delivered to one object after the other. -/
def onFileDownStream (downs : Downloads) (response : MESFileDownStreamResponse) :
    Downloads × List DownEffect :=
  let (cache, active, effects) := streamAll response downs.cache downs.active
  ({ cache, active }, effects)

/-- The signals that the objects are connected to. -/
def onSignal (downs : Downloads) : Signal → Downloads × List DownEffect
  | .fileDown response => downs.onFileDown response
  | .fileDownStream response => downs.onFileDownStream response
  | _ => (downs, [])

end Downloads

end ProgrammingPath.Mes
