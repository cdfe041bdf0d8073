import Attos.Containers.Kvector
import Attos.Lib.Reach
import Attos.Net.TftpSessions

/-!
# The names of uploaded files

The name in a request ends with a terminator. The server copies the characters before it into a
vector, and the vector into the session that it starts. When the last block arrives, it reads the
name from the vector, up to a terminator that was never copied there. The vector has room for ten
characters at least, and its memory was clear, so there is one behind a name with less than ten
characters (`filenameString_stored`); behind a longer name the vector ends, and for an empty one there
is no memory at all.

An upload goes on from its request to its last block, whatever else the server receives
(`Server.Upload`), and ends in a file with the name that was requested if this name was stored as a
string (`uploadName_iff`).
-/

namespace Attos.Net.Tftp

open Lib Containers

/-! ## Strings in memory -/

/-- `char` -/
def char : ElementType UInt8 Empty where
  sizeof := 1
  sizeof_pos := by decide
  sizeof_lt := by decide
  default := 0
  resources _ := []
  destroy c := c
  moveFrom c := c
  moveAssign _ c := (c, c)

/-- The memory that `kalloc` hands out comes from `calloc`, which clears it. -/
def clearMemory : ℕ → UInt8 := fun _ => 0

/-- The vector `fname` of the characters, and the copy of it in the session. -/
def storeFilename (limit : ℕ) (filename : List UInt8) : Outcome (Kvector UInt8) := do
  let (fname, _) ← Kvector.insert char limit clearMemory (Kvector.null clearMemory) filename
  let (filename_, _) ← Kvector.copyConstruct char limit clearMemory fname
  pure filename_

/-- The string from slot `i` on, `n` slots before the end of the block, unless the block ends before it. -/
def readString (slots : ℕ → UInt8) : ℕ → ℕ → Option (List UInt8)
  | 0, _ => none
  | n + 1, i => if slots i = 0 then some [] else (readString slots n (i + 1)).map (slots i :: ·)

/-- The string that `filename()` points to. -/
def filenameString (filename_ : Kvector UInt8) : Option (List UInt8) :=
  readString filename_.slots (filename_.block.getD 0) 0

/-- The characters of a string are read one by one. -/
theorem readString_add {slots : ℕ → UInt8} {l : List UInt8} {i : ℕ} (n : ℕ) (hl : 0 ∉ l)
    (hslots : ∀ j (hj : j < l.length), slots (i + j) = l[j]) :
    readString slots (l.length + n) i = (readString slots n (i + l.length)).map (l ++ ·) := by
  induction l generalizing i with
  | nil => simp
  | cons c l ih =>
    rw [List.mem_cons, not_or] at hl
    have hc : slots i = c := hslots 0 (Nat.succ_pos _)
    have hrest : ∀ j (hj : j < l.length), slots (i + 1 + j) = l[j] := by
      intro j hj
      rw [Nat.add_right_comm]
      exact hslots (j + 1) (Nat.succ_lt_succ hj)
    rw [List.length_cons, Nat.add_right_comm, readString, hc, if_neg (Ne.symm hl.1), ih hl.2 hrest,
      Option.map_map, Nat.add_right_comm, Nat.add_assoc]
    rfl

/-- **A stored name** is a string if it is neither empty nor too long. -/
theorem filenameString_stored {filename : List UInt8} {v : Kvector UInt8} (h : Kvector.Stored char clearMemory filename v)
    (hne : 0 ∉ filename) : filenameString v = some filename ↔ 1 ≤ filename.length ∧ filename.length ≤ 9 := by
  have hslots : ∀ j (hj : j < filename.length), v.slots (0 + j) = filename[j] := by
    intro j hj
    rw [Nat.zero_add, h.slots_of_lt hj]
  have hread := fun n => readString_add n hne hslots
  by_cases hempty : filename = []
  · rw [filenameString, h.block, if_pos hempty, hempty]
    simp [readString]
  have hpos : 1 ≤ filename.length := List.length_pos_iff.mpr hempty
  have hblock : v.block = some (max filename.length 10) := by
    rw [h.block, if_neg hempty]
    exact congrArg some (Nat.one_mul _)
  rw [filenameString, hblock, Option.getD_some]
  rcases Nat.lt_or_ge filename.length 10 with hshort | hlong
  · -- there is a clear byte behind the name
    have hzero : v.slots (0 + filename.length) = 0 := by
      rw [Nat.zero_add, h.slots_of_ge le_rfl]
      rfl
    obtain ⟨n, hn⟩ := Nat.exists_eq_add_of_lt hshort
    rw [max_eq_right hshort.le, hn, Nat.add_assoc, hread, readString, if_pos hzero]
    simpa [hpos] using Nat.le_of_lt_succ hshort
  · -- the block ends behind the name
    have hend := hread 0
    rw [Nat.add_zero, readString, Option.map_none] at hend
    rw [max_eq_left hlong, hend]
    exact iff_of_false (by simp) fun h => absurd hlong (not_le.mpr (Nat.lt_succ_of_le h.2))

/-- The name is stored as it was requested. -/
theorem storeFilename_eq_done {limit : ℕ} {filename : List UInt8} {v : Kvector UInt8}
    (hlength : filename.length ≤ 1024) (h : storeFilename limit filename = .done v) :
    Kvector.Stored char clearMemory filename v := by
  have hfits : char.sizeof * max filename.length 10 < 2 ^ 64 := by
    have hmax : max filename.length 10 ≤ 1024 := max_le hlength (by norm_num)
    exact (Nat.one_mul _).trans_lt (hmax.trans_lt (by norm_num))
  obtain ⟨⟨fname, released⟩, hfname, h⟩ := Outcome.bind_eq_done.mp h
  obtain ⟨⟨filename_, released'⟩, hcopy, h⟩ := Outcome.bind_eq_done.mp h
  obtain rfl := Outcome.done.inj h
  have hstored := Kvector.insert_null_eq_done hfits hfname
  rw [← hstored.size] at hfits
  have hcopied := Kvector.copyConstruct_stored hfits hcopy
  rwa [hstored.contents] at hcopied

/-- It can be stored. -/
theorem storeFilename_returns {limit : ℕ} {filename : List UInt8} (hroom : max filename.length 10 ≤ limit)
    (hlimit : limit < 2 ^ 64) : (storeFilename limit filename).Returns := by
  have hfits : char.sizeof * max filename.length 10 ≤ limit := (Nat.one_mul _).trans_le hroom
  have hinsert : (Kvector.insert char limit clearMemory (Kvector.null clearMemory) filename).Returns :=
    Kvector.insert_null_returns hfits hlimit
  obtain ⟨p, hfname⟩ := hinsert
  have hsize := (Kvector.insert_null_eq_done (hfits.trans_lt hlimit) hfname).size
  rw [← hsize] at hfits
  have hcopy : (Kvector.copyConstruct char limit clearMemory p.1).Returns := Kvector.copyConstruct_returns hfits hlimit
  obtain ⟨p', hcopied⟩ := hcopy
  rw [storeFilename, hfname, Outcome.done_bind]
  exact Outcome.bind_returns.mpr ⟨p', hcopied, Outcome.done_returns _⟩

/-! ## Uploads -/

/-- A write request for a file with a valid name, in the buffer of the server. -/
structure WriteRequest (buf filename : List UInt8) : Prop where
  /-- the packet fits in the buffer -/
  length_le : buf.length ≤ 1024
  /-- and has the name -/
  request : ∃ data rest, getOpcode buf = .done (.wrq, data) ∧ getString data = .done (filename, rest)
  /-- which is valid -/
  valid : validFilename filename = true

theorem WriteRequest.nonzero {buf filename : List UInt8} (h : WriteRequest buf filename) : 0 ∉ filename := by
  obtain ⟨data, rest, -, hname⟩ := h.request
  exact (getString_eq_done hname).2

theorem WriteRequest.length_filename {buf filename : List UInt8} (h : WriteRequest buf filename) :
    filename.length ≤ 1024 := by
  obtain ⟨data, rest, hop, hname⟩ := h.request
  obtain ⟨⟨op, data'⟩, hget, hop⟩ := Outcome.bind_eq_done.mp hop
  obtain ⟨-, rfl⟩ := Prod.mk.inj (Outcome.done.inj hop)
  obtain ⟨-, hget⟩ := Outcome.require_bind_eq_done.mp hget
  obtain ⟨-, rfl⟩ := Prod.mk.inj (Outcome.done.inj hget)
  have hlength := congrArg List.length (getString_eq_done hname).1
  rw [List.length_append, putString, List.length_append, List.length_drop] at hlength
  have hbuf := h.length_le
  omega

namespace Server

/-- The server receives a packet. -/
def Step (s s' : Server) : Prop :=
  s.done = false ∧ ∃ host remoteAddr remotePort buf out, buf.length ≤ 1024 ∧
    s.packetIn host remoteAddr remotePort buf = .done (s', out)

/-- The servers of all runs. -/
abbrev Reachable : Server → Prop := Reach (fun s => s.sessions_ = []) Step

theorem Reachable.oneEach {s : Server} (h : Reachable s) : s.OneEach := by
  refine h.invariant OneEach (fun s hs => ?_) ?_
  · rw [OneEach, hs]
    exact List.nodup_nil
  · rintro s s' hs ⟨-, host, remoteAddr, remotePort, buf, out, -, hrun⟩
    exact packetIn_oneEach hs hrun

/-- A client uploads a file with this name: the server started a session with the name in the vector
`v`, and received no other request of the client since. -/
inductive Upload (limit : ℕ) (remoteAddr : Ipv4Address) (remotePort : ℕ) (filename : List UInt8)
    (v : Kvector UInt8) : Server → Prop where
  /-- the request is acknowledged -/
  | start {s s' : Server} {host : Host} {buf : List UInt8} : Reachable s → s.done = false → WriteRequest buf filename →
      s.packetIn host remoteAddr remotePort buf = .done (s', putAck 0) → storeFilename limit filename = .done v →
        Upload limit remoteAddr remotePort filename v s'
  /-- another packet of the client -/
  | packet {s s' : Server} {host : Host} {buf data out : List UInt8} {opcode : Opcode} :
      Upload limit remoteAddr remotePort filename v s → s.done = false → buf.length ≤ 1024 →
        getOpcode buf = .done (opcode, data) → opcode ≠ .rrq → opcode ≠ .wrq →
          s.packetIn host remoteAddr remotePort buf = .done (s', out) →
            Upload limit remoteAddr remotePort filename v s'
  /-- a packet of another client -/
  | other {s s' : Server} : Upload limit remoteAddr remotePort filename v s →
      s.ReceivesOther remoteAddr remotePort s' → Upload limit remoteAddr remotePort filename v s'

/-- The last block arrives, and the server looks for the file `name` and creates it. This is the string
in the vector; if the vector ends before the string does, the name goes on with any bytes. -/
def Completes (v : Kvector UInt8) (remoteAddr : Ipv4Address) (remotePort : ℕ) (s : Server) (name : List UInt8)
    (s' : Server) : Prop :=
  ∃ buf k payload x host out, s.done = false ∧ buf.length ≤ 1024 ∧ IsData buf k payload ∧
    payload.length < blockSize ∧ s.find remoteAddr remotePort = some x ∧ name = x.filename_ ++ host.tail ∧
      (∀ string, filenameString v = some string → name = string) ∧
        s.packetIn host remoteAddr remotePort buf = .done (s', out)

/-- The file is created unless it exists. -/
def Creates (s : Server) (name : List UInt8) (s' : Server) : Prop :=
  if s.FileExists name then s'.files = s.files else ∃ data, s'.files = Function.update s.files name (some data)

variable {limit : ℕ} {remoteAddr : Ipv4Address} {remotePort : ℕ} {filename name : List UInt8}
  {v : Kvector UInt8} {s s' : Server}

/-- The upload began with a request, the name of which was stored. -/
theorem Upload.stored (h : Upload limit remoteAddr remotePort filename v s) :
    0 ∉ filename ∧ Kvector.Stored char clearMemory filename v := by
  induction h with
  | start _ _ hrequest _ hstore => exact ⟨hrequest.nonzero, storeFilename_eq_done hrequest.length_filename hstore⟩
  | packet _ _ _ _ _ _ _ ih => exact ih
  | other _ _ ih => exact ih

/-- **The session of the client** is the one of the request. -/
theorem Upload.sessions (h : Upload limit remoteAddr remotePort filename v s) :
    ∀ x ∈ s.sessions_, x.IsFrom remoteAddr remotePort → x.filename_ = filename := by
  induction h with
  | start hs _ hrequest hrun _ =>
    obtain ⟨data, rest, hop, hname⟩ := hrequest.request
    obtain ⟨name, rest', hname', ⟨rfl, ec, msg, herror⟩ | ⟨hread, -⟩ | ⟨-, -, rfl⟩⟩ :=
      request_eq_done (packetIn_eq hop hrun)
    · -- the answer was no error
      obtain ⟨rest', hop'⟩ := getOpcode_putErrorReply ec msg
      have hack : getOpcode (putAck 0) = .done (.ack, put16 0) := getOpcode_putOpcode (by simp) _
      rw [← herror, hack] at hop'
      cases hop'
    · cases hread
    · obtain ⟨rfl, -⟩ := Prod.mk.inj (Outcome.done.inj (hname'.symm.trans hname))
      intro x hx hfrom
      rcases mem_push.mp hx with hx | rfl
      · exact absurd hfrom (hs.oneEach.not_mem_erase x hx)
      · rfl
  | @packet s s' host buf data out opcode _ _ _ hop hrrq hwrq hrun ih =>
    have hrun' := packetIn_eq hop hrun
    cases opcode with
    | rrq => exact absurd rfl hrrq
    | wrq => exact absurd rfl hwrq
    | data =>
      obtain ⟨k, payload, x, y, -, hfind, hgot, -, ⟨-, hsessions, -⟩ | ⟨-, rfl, -⟩⟩ := dataIn_eq_done hrun'
      · rw [hsessions]
        exact fun z hz => ih z (mem_erase hz)
      · intro z hz hfrom
        rcases mem_update hz with hz | rfl
        · exact ih z hz hfrom
        · obtain ⟨hx, hfrom'⟩ := find_eq_some hfind
          obtain ⟨-, -, -, -, rfl⟩ := Session.gotData_eq_done hgot
          exact ih x hx hfrom'
    | ack =>
      obtain ⟨k, rest, x, -, -, ⟨rfl, -⟩ | ⟨rfl, -⟩⟩ := ackIn_eq_done hrun'
      · exact fun z hz => ih z (mem_erase hz)
      · exact ih
    | error =>
      cases hrun'
      exact ih
    | other n =>
      cases hrun'
      exact ih
  | other _ hother ih => exact fun x hx hfrom => ih x (hother.frame.1 x hx hfrom) hfrom

/-- **A last block** creates a file, the name of which starts with the one that was requested. -/
theorem Upload.completes (h : Upload limit remoteAddr remotePort filename v s)
    (hlast : Completes v remoteAddr remotePort s name s') : filename <+: name ∧ s.Creates name s' := by
  obtain ⟨buf, k, payload, x, host, out, -, -, ⟨rest, hop, hblock⟩, hshort, hfind, rfl, -, hrun⟩ := hlast
  obtain ⟨hx, hfrom⟩ := find_eq_some hfind
  refine ⟨⟨host.tail, by rw [h.sessions x hx hfrom]⟩, ?_⟩
  have hdata := packetIn_eq hop hrun
  dsimp only at hdata
  rw [dataIn, hblock, Outcome.done_bind, hfind, Outcome.requireSome_some] at hdata
  dsimp only at hdata
  rw [Outcome.done_bind] at hdata
  obtain ⟨⟨expected, y⟩, hgot, hdata⟩ := Outcome.bind_eq_done.mp hdata
  have hname := Session.gotData_filename hgot
  dsimp only at hdata
  rw [if_pos hshort] at hdata
  rw [Creates]
  obtain ⟨⟨s₁, error⟩, hstore, hstored⟩ := Outcome.bind_eq_done.mp hdata
  clear hdata
  obtain ⟨-, ⟨hexists, rfl, -⟩ | ⟨hnew, -, rfl, -⟩⟩ := storeFile_eq_done hstore
  · rw [hname] at hexists
    rw [if_pos hexists]
    cases hstored
    rfl
  · rw [hname] at hnew
    rw [if_neg hnew]
    cases hstored
    exact ⟨y.data_, by rw [← hname]; rfl⟩

/-! ## Names of any length -/

/-- **Every name can be uploaded**, as long as the request fits in the buffer. -/
theorem exists_upload (filename : CString) (hvalid : validFilename filename.chars = true)
    (hlength : filename.chars.length ≤ 1015) (hremote : remoteAddr ≠ inaddrBroadcast) :
    ∃ v s, Upload 4096 remoteAddr remotePort filename.chars v s := by
  let s : Server := ⟨[], fun _ => none, false, []⟩
  have hop := @getOpcode_putRequest .wrq (by simp) filename
  have hname := getString_putString filename.nonzero (putString (ascii "octet"))
  have hmode : getString (putString (ascii "octet")) = .done (ascii "octet", []) := rfl
  have hrequest : WriteRequest (putRequest .wrq filename) filename.chars := by
    refine ⟨?_, ⟨_, _, hop, hname⟩, hvalid⟩
    simp [putRequest, putOpcode, putString, ascii]
    omega
  have hstore : (storeFilename 4096 filename.chars).Returns :=
    storeFilename_returns (max_le (hlength.trans (by norm_num)) (by norm_num)) (by norm_num)
  obtain ⟨v, hv⟩ := hstore
  let s' : Server := s.push ⟨remoteAddr, remotePort, filename.chars, false, [], []⟩
  suffices hrun : s.packetIn ⟨[], true⟩ remoteAddr remotePort (putRequest .wrq filename) = .done (s', putAck 0) from
    ⟨v, s', .start (.start rfl) rfl hrequest hrun hv⟩
  rw [packetIn, Outcome.require_pos hremote, Outcome.done_bind, hop, Outcome.done_bind]
  dsimp only
  rw [request, hname, Outcome.done_bind]
  dsimp only
  rw [hmode, Outcome.done_bind]
  dsimp only
  rw [if_neg (not_not_intro rfl), if_neg (not_not_intro hvalid)]
  rfl

/-! ## The name of the file -/

/-- The file gets the name that was requested, and this name is read from the vector. -/
def Named (v : Kvector UInt8) (remoteAddr : Ipv4Address) (remotePort : ℕ) (filename : List UInt8) (s : Server) :
    Prop :=
  filenameString v = some filename ∧
    ∀ name s', Completes v remoteAddr remotePort s name s' → name = filename ∧ s.Creates filename s'

/-- **When an upload gets its name**: exactly if it has from one to nine characters. -/
theorem uploadName_iff (h : Upload limit remoteAddr remotePort filename v s) :
    Named v remoteAddr remotePort filename s ↔ 1 ≤ filename.length ∧ filename.length ≤ 9 := by
  obtain ⟨hnonzero, hstored⟩ := h.stored
  rw [← filenameString_stored hstored hnonzero, Named, and_iff_left_iff_imp]
  intro hstring name s' hcompletes
  have hname : name = filename := by
    obtain ⟨buf, k, payload, x, host, out, -, -, -, -, -, -, hread, -⟩ := hcompletes
    exact hread filename hstring
  exact ⟨hname, hname ▸ (h.completes hcompletes).2⟩

/-- A file with a name of five characters is uploaded under this name. -/
theorem uploadName_iff_five : ∃ v s, Upload 4096 0xc0a80a02 49152 (ascii "a.txt") v s ∧
    Named v 0xc0a80a02 49152 (ascii "a.txt") s := by
  obtain ⟨v, s, h⟩ := @exists_upload 0xc0a80a02 49152 ⟨ascii "a.txt", by decide⟩ (by decide) (by decide) (by decide)
  exact ⟨v, s, h, (uploadName_iff h).mpr (by decide)⟩

/-- **A name of ten characters**: there is no terminator in the vector. -/
theorem not_uploadName : ∃ v s, Upload 4096 0xc0a80a02 49152 (ascii "readme.txt") v s ∧
    ¬ Named v 0xc0a80a02 49152 (ascii "readme.txt") s := by
  obtain ⟨v, s, h⟩ := @exists_upload 0xc0a80a02 49152 ⟨ascii "readme.txt", by decide⟩ (by decide) (by decide)
    (by decide)
  refine ⟨v, s, h, fun hnamed => ?_⟩
  obtain ⟨hnonzero, hstored⟩ := h.stored
  exact absurd ((filenameString_stored hstored hnonzero).mp hnamed.1).2 (by decide)

end Server

end Attos.Net.Tftp
