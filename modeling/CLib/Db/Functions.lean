import CLib.Base.Disk

namespace CLib.Db
open CLib.Base

/-- `PTR_SZ` and `IDXLEN_SZ`, the widths of the two fields in front of an index record. -/
def ptrSz : ℕ := 7
def idxlenSz : ℕ := 4

def ptrMax : ℕ := 9999999

def nhash : ℕ := 137

def freeOff : ℕ := 0
def hashOff : ℕ := ptrSz

/-- `IDXLEN_MIN`, `IDXLEN_MAX`, `DATLEN_MIN` and `DATLEN_MAX`. -/
def idxlenMin : ℕ := 6
def idxlenMax : ℕ := 1024
def datlenMin : ℕ := 2
def datlenMax : ℕ := 1024

def sep : Char := ':'

/-- The two files and the fields of the handle. -/
structure DB where
  idxFile : Text
  datFile : Text
  /-- The file offset of `idxfd`, from which `db_nextrec` reads on. -/
  idxPos : ℕ
  /-- The C string at the start of `idxbuf`. -/
  idxbuf : Text
  idxoff : ℕ
  idxlen : ℕ
  datoff : ℕ
  datlen : ℕ
  ptrval : ℤ
  ptroff : ℕ
  chainoff : ℕ
  deriving DecidableEq

/-- Where `_db_writedat` and `_db_writeidx` write: `SEEK_SET` with an offset, or `SEEK_END`. -/
inductive Whence
  | set (offset : ℕ)
  | atEnd

def Whence.offset (file : Text) : Whence → ℕ
  | .set offset => offset
  | .atEnd => file.length

/-- The flags of `db_store`. -/
inductive Flag
  | insert | replace | store | other
  deriving DecidableEq

/-- A byte as the value of a `char`, which is signed. -/
def charValue (c : Char) : ℤ := if c.toNat < 128 then c.toNat else (c.toNat : ℤ) - 256

/-- The sum of `_db_hash`, from the 1-based index `i` on. -/
def hashSum : ℕ → Text → ℤ
  | _, [] => 0
  | i, c :: key => charValue c * i + hashSum (i + 1) key

/-- `_db_hash`: the sum is kept in an `unsigned long`. -/
def hash (key : Text) : ℕ := (hashSum 1 key % 2 ^ 64).toNat % nhash

/-- The record that `_db_writeidx` builds in `idxbuf`. -/
def indexRecord (key : Text) (datoff datlen : ℕ) : Text :=
  key ++ sep :: (percentU datoff ++ sep :: (percentU datlen ++ ['\n']))

namespace DB

def rewind (db : DB) : DB :=
  { db with idxPos := (nhash + 1) * ptrSz + 1, idxoff := (nhash + 1) * ptrSz + 1 }

/-- `db_open` of two files that are there. -/
def opened (idxFile datFile : Text) : DB := rewind ⟨idxFile, datFile, 0, [], 0, 0, 0, 0, 0, 0, 0⟩

/-- `db_open` with `O_CREAT | O_TRUNC`. -/
def created : DB := opened ((List.replicate (nhash + 1) (percentPad ptrSz 0)).flatten ++ ['\n']) []

/-- `_db_readptr`. A call of `err_dump` ends the process, which is `none` here and below. -/
def readptr (db : DB) (offset : ℕ) : Option (ℤ × DB) :=
  let asciiptr := pread db.idxFile offset ptrSz
  if asciiptr.length = ptrSz then some (atol asciiptr, { db with idxPos := offset + ptrSz }) else none

def writeptr (db : DB) (offset : ℕ) (ptrval : ℤ) : Option DB :=
  if ptrval < 0 ∨ ptrMax < ptrval then none
  else some { db with
    idxFile := pwrite db.idxFile offset (percentPad ptrSz ptrval.toNat)
    idxPos := offset + ptrSz }

/-- The three strings of an index record, cut at its separators. -/
def splitIndex (s : Text) : Option (Text × Text × Text) :=
  let t := cstr s
  let ptr1 := (t.dropWhile (· != sep)).tail
  let ptr2 := (ptr1.dropWhile (· != sep)).tail
  if sep ∈ t ∧ sep ∈ ptr1 ∧ sep ∉ ptr2 then
    some (t.takeWhile (· != sep), ptr1.takeWhile (· != sep), ptr2)
  else none

/-- `_db_readidx`, which returns `none` inside at the end of the file. -/
def readidx (db : DB) (offset : ℤ) : Option (Option ℤ × DB) :=
  if offset < 0 then none
  else
    let off := if offset = 0 then db.idxPos else offset.toNat
    let head := pread db.idxFile off (ptrSz + idxlenSz)
    if head.length ≠ ptrSz + idxlenSz then
      if head = [] ∧ offset = 0 then some (none, { db with idxoff := off, idxPos := off }) else none
    else
      let ptrval := atol (head.take ptrSz)
      let idxlen := atol (head.drop ptrSz)
      if idxlen < idxlenMin ∨ idxlenMax < idxlen then none
      else
        let record := pread db.idxFile (off + (ptrSz + idxlenSz)) idxlen.toNat
        if record.length ≠ idxlen.toNat ∨ record.getLast? ≠ some '\n' then none
        else
          (splitIndex record.dropLast).bind fun (key, ptr1, ptr2) =>
            if atol ptr1 < 0 ∨ atol ptr2 ≤ 0 ∨ datlenMax < atol ptr2 then none
            else some (some ptrval, { db with
              idxPos := off + (ptrSz + idxlenSz) + idxlen.toNat
              idxbuf := key
              idxoff := off
              idxlen := idxlen.toNat
              datoff := (atol ptr1).toNat
              datlen := (atol ptr2).toNat
              ptrval := ptrval })

def readdat (db : DB) : Option Text :=
  let datbuf := pread db.datFile db.datoff db.datlen
  if datbuf.length ≠ db.datlen ∨ datbuf.getLast? ≠ some '\n' then none
  else some (cstr datbuf.dropLast)

def writedat (db : DB) (data : Text) (w : Whence) : DB :=
  { db with
    datFile := pwrite db.datFile (w.offset db.datFile) (data ++ ['\n'])
    datoff := w.offset db.datFile
    datlen := data.length + 1 }

def writeidx (db : DB) (key : Text) (w : Whence) (ptrval : ℤ) : Option DB :=
  let idxbuf := indexRecord key db.datoff db.datlen
  if ptrval < 0 ∨ ptrMax < ptrval ∨ idxbuf.length < idxlenMin ∨ idxlenMax < idxbuf.length then none
  else
    let asciiptrlen := percentPad ptrSz ptrval.toNat ++ percentPad idxlenSz idxbuf.length
    let off := w.offset db.idxFile
    some { db with
      idxFile := pwrite db.idxFile off (asciiptrlen ++ idxbuf)
      idxPos := off + (ptrSz + idxlenSz) + idxbuf.length
      idxbuf := idxbuf
      idxoff := off
      ptrval := ptrval }

/-- The loop of `_db_find_and_lock`. A chain that runs in a circle uses up the fuel. -/
def find (key : Text) : ℕ → DB → ℤ → Option (Bool × DB)
  | 0, _, _ => none
  | fuel + 1, db, offset =>
    if offset = 0 then some (false, db)
    else
      match db.readidx offset with
      | some (some nextoffset, db) =>
        if db.idxbuf = key then some (true, db)
        else find key fuel { db with ptroff := offset.toNat } nextoffset
      | _ => none

/-- A bound for the records of a chain without a circle. -/
def fuel (db : DB) : ℕ := db.idxFile.length + 1

def findAndLock (db : DB) (key : Text) : Option (Bool × DB) :=
  let chainoff := hash key * ptrSz + hashOff
  ({ db with chainoff := chainoff, ptroff := chainoff }.readptr chainoff).bind fun (offset, db) =>
    db.find key db.fuel offset

def fetch (db : DB) (key : Text) : Option (Option Text × DB) :=
  (db.findAndLock key).bind fun (found, db) =>
    if found then db.readdat.map fun data => (some data, db) else some (none, db)

def dodelete (db : DB) : Option DB :=
  let datbuf := List.replicate (db.datlen - 1) ' '
  let key := List.replicate db.idxbuf.length ' '
  ((db.writedat datbuf (.set db.datoff)).readptr freeOff).bind fun (freeptr, db) =>
    let saveptr := db.ptrval
    (db.writeidx key (.set db.idxoff) freeptr).bind fun db =>
      (db.writeptr freeOff db.idxoff).bind fun db => db.writeptr db.ptroff saveptr

def delete (db : DB) (key : Text) : Option (ℤ × DB) :=
  (db.findAndLock key).bind fun (found, db) =>
    if found then db.dodelete.map fun db => (0, db) else some (-1, db)

def findfreeLoop (keylen datlen : ℕ) : ℕ → DB → ℕ → ℤ → Option (Bool × DB)
  | 0, _, _, _ => none
  | fuel + 1, db, saveoffset, offset =>
    if offset = 0 then some (false, db)
    else
      match db.readidx offset with
      | some (some nextoffset, db) =>
        if db.idxbuf.length = keylen ∧ db.datlen = datlen then
          (db.writeptr saveoffset db.ptrval).map fun db => (true, db)
        else findfreeLoop keylen datlen fuel db offset.toNat nextoffset
      | _ => none

def findfree (db : DB) (keylen datlen : ℕ) : Option (Bool × DB) :=
  (db.readptr freeOff).bind fun (offset, db) =>
    db.findfreeLoop keylen datlen db.fuel freeOff offset

/-- A new record at the end of both files, in front of the hash chain. -/
def append (db : DB) (key data : Text) (ptrval : ℤ) : Option DB :=
  ((db.writedat data .atEnd).writeidx key .atEnd ptrval).bind fun db =>
    db.writeptr db.chainoff db.idxoff

/-- `db_store` where there is no record of the key: a free slot of the right size is used again. -/
def storeNew (db : DB) (key data : Text) : Option DB :=
  (db.readptr db.chainoff).bind fun (ptrval, db) =>
    (db.findfree key.length (data.length + 1)).bind fun (free, db) =>
      if !free then db.append key data ptrval
      else
        ((db.writedat data (.set db.datoff)).writeidx key (.set db.idxoff) ptrval).bind fun db =>
          db.writeptr db.chainoff db.idxoff

/-- `db_store` where a record of the key has been found. -/
def storeOver (db : DB) (key data : Text) : Option DB :=
  if data.length + 1 ≠ db.datlen then
    db.dodelete.bind fun db =>
      -- The chain may begin elsewhere after the deletion.
      (db.readptr db.chainoff).bind fun (ptrval, db) => db.append key data ptrval
  else some (db.writedat data (.set db.datoff))

/-- `db_store`: 0 if the record is stored, 1 if it exists and must not, -1 on other errors. -/
def store (db : DB) (key data : Text) (flag : Flag) : Option (ℤ × DB) :=
  if flag = .other then some (-1, db)
  else if data.length + 1 < datlenMin ∨ datlenMax < data.length + 1 then none
  else
    (db.findAndLock key).bind fun (found, db) =>
      if !found then
        if flag = .replace then some (-1, db) else (db.storeNew key data).map fun db => (0, db)
      else if flag = .insert then some (1, db)
      else (db.storeOver key data).map fun db => (0, db)

/-- The loop of `db_nextrec`, which passes over the records whose key is blank. -/
def nextrecLoop : ℕ → DB → Option (Option (Text × Text) × DB)
  | 0, _ => none
  | fuel + 1, db =>
    match db.readidx 0 with
    | none => none
    | some (none, db) => some (none, db)
    | some (some _, db) =>
      if db.idxbuf.all (· == ' ') then nextrecLoop fuel db
      else db.readdat.map fun data => (some (db.idxbuf, data), db)

/-- `db_nextrec`: the next key and its data. -/
def nextrec (db : DB) : Option (Option (Text × Text) × DB) := db.nextrecLoop db.fuel

end DB
end CLib.Db
