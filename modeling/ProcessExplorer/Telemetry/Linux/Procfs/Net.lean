import ProcessExplorer.Library.IpText
import ProcessExplorer.Telemetry.Linux.Procfs.Files

/-! The sockets of a process: /proc/[pid]/net/{tcp,tcp6,udp,udp6,unix}, the rows whose inode is
among its descriptors. -/
namespace ProcessExplorer.Telemetry.Linux
open Library Model

/-- A computation that may fail, and may panic: then there is no result at all. -/
abbrev Checked (α : Type) := ExceptT TelemetryError Option α

def Checked.panicked {α : Type} : Checked α := ExceptT.mk none

/-- The computation ends with this result. -/
def Checked.Returns {α : Type} (x : Checked α) (a : α) : Prop := x.run = some (.ok a)

section Checked
variable {α β : Type}

theorem Checked.Returns.unique {x : Checked α} {a b : α} (h : x.Returns a) (h' : x.Returns b) : a = b :=
  Except.ok.inj (Option.some.inj (h.symm.trans h'))

@[simp] theorem returns_pure (a b : α) : Checked.Returns (pure a) b ↔ a = b := by
  simp [Checked.Returns]

@[simp] theorem not_returns_throw (e : TelemetryError) (a : α) : ¬ Checked.Returns (throw e) a := by
  simp [Checked.Returns]

@[simp] theorem not_returns_panicked (a : α) : ¬ Checked.Returns .panicked a := nofun

@[simp] theorem returns_bind (x : Checked α) (f : α → Checked β) (b : β) :
    Checked.Returns (x >>= f) b ↔ ∃ a, x.Returns a ∧ (f a).Returns b := by
  simp only [Checked.Returns, ExceptT.run_bind]
  rcases x.run with _ | e | a
  · simp
  · simp
  · simp

end Checked

/-- The bytes that pairs of digits stand for. The source slices the text two bytes at a time, and a slice
that ends within a character or beyond the text panics. -/
def hexBytes (bad : TelemetryError) : Text → Checked (List UInt8)
  | [] => pure []
  | [c] => if c.utf8Size = 2 then throw bad else .panicked
  | c :: d :: rest =>
    -- One character of two bytes is a slice, but no number.
    if c.utf8Size = 2 then throw bad
    else if c.utf8Size = 1 ∧ d.utf8Size = 1 then
      match Text.parseHexU8 [c, d] with
      | none => throw bad
      | some byte => do
        let bytes ← hexBytes bad rest
        pure (byte :: bytes)
    else .panicked

/-- The bytes of each 32-bit word the other way round. -/
def swapWords : List UInt8 → List UInt8
  | a :: b :: c :: d :: rest => d :: c :: b :: a :: swapWords rest
  | rest => rest

/-- The 16-bit segments of big-endian octets. -/
def segmentsOf : List UInt8 → List UInt16
  | high :: low :: rest => UInt16.ofNat (256 * high.toNat + low.toNat) :: segmentsOf rest
  | _ => []

def decodeHexAddr (hex : Text) (path : String) : Checked Text := do
  let bytes ← hexBytes (parseErr path ("bad address hex '" ++ String.ofList hex ++ "'")) hex
  match bytes with
  | [a, b, c, d] => pure (IpText.dotted d c b a)
  | bytes =>
    if bytes.length = 16 then pure (IpText.ipv6 (segmentsOf (swapWords bytes)))
    else throw (parseErr path ("unexpected address length in '" ++ String.ofList hex ++ "'"))

def decodeHexAddrPort (field : Text) (path : String) : Checked (Text × UInt16) :=
  match Text.splitOnce ':' field with
  | none => throw (parseErr path ("expected 'addr:port', got '" ++ String.ofList field ++ "'"))
  | some (addrHex, portHex) =>
    match Text.parseHexU16 portHex with
    | none => throw (parseErr path ("bad port hex '" ++ String.ofList portHex ++ "'"))
    | some port => do
      let addr ← decodeHexAddr addrHex path
      pure (addr ++ ':' :: IpText.decimal port.toNat, port)

example : (decodeHexAddrPort "0100007F:1F90".toList "test").run =
    some (.ok ("127.0.0.1:8080".toList, 8080)) := by decide

example : (decodeHexAddrPort "00000000000000000000000001000000:1F90".toList "test").run =
    some (.ok ("::1:8080".toList, 8080)) := by decide

/-- The columns of a row that are read. -/
structure RowFields where
  localAddress : Text
  remAddress : Text
  state : Text
  inode : Text

/-- A row has ten columns or more; a shorter line is blank. -/
def rowFields (line : Text) : Option RowFields :=
  match Text.splitWhitespace line with
  | _ :: localAddress :: remAddress :: state :: _ :: _ :: _ :: _ :: _ :: inode :: _ =>
    some ⟨localAddress, remAddress, state, inode⟩
  | _ => none

def parseRow (fields : RowFields) (protocol : Protocol) (path : String) : Checked NetworkConnection := do
  let (localAddr, _) ← decodeHexAddrPort fields.localAddress path
  let (remoteAddr, _) ← decodeHexAddrPort fields.remAddress path
  let some stateByte := Text.parseHexU8 fields.state
    | throw (parseErr path ("bad state hex '" ++ String.ofList fields.state ++ "'"))
  let some inode := Text.parseU64 fields.inode
    | throw (parseErr path ("bad inode '" ++ String.ofList fields.inode ++ "'"))
  pure {
    protocol := protocol
    localAddr := String.ofList localAddr
    remoteAddr := String.ofList remoteAddr
    state := .fromProcHex stateByte
    inode := inode }

def parseRows (protocol : Protocol) (path : String) : List Text → Checked (List NetworkConnection)
  | [] => pure []
  | line :: lines =>
    match rowFields line with
    | none => parseRows protocol path lines
    | some fields => do
      let conn ← parseRow fields protocol path
      let connections ← parseRows protocol path lines
      pure (conn :: connections)

def parseTcpUdp (content : Text) (protocol : Protocol) (path : String) : Checked (List NetworkConnection) :=
  parseRows protocol path ((Text.lines content).drop 1)

/-- The rows of net/unix: a socket that is not bound has no path, and none has a state. -/
def parseUnix (content : Text) : List NetworkConnection :=
  ((Text.lines content).drop 1).filterMap fun line =>
    match Text.splitWhitespace line with
    | _ :: _ :: _ :: _ :: _ :: _ :: inode :: rest =>
      (Text.parseU64 inode).map fun inode =>
        ⟨.unix, String.ofList (rest.head?.getD []), "", .unknown, inode⟩
    | _ => none

/-- A reader that may panic. -/
abbrev ProcfsPanics (α : Type) := OptionT Procfs α

def Checked.lift {α : Type} (x : Checked α) : ProcfsPanics α :=
  OptionT.mk (match x.run with
    | none => pure none
    | some (.ok a) => pure (some a)
    | some (.error e) => throw e)

/-- The read ends with this result, without an error. -/
def ProcfsPanics.Returns {α : Type} (fs : FileSystem) (x : ProcfsPanics α) (a : α) : Prop :=
  Procfs.resultOn fs x.run = .ok (some a)

section Panics
variable {α β : Type} (fs : FileSystem)

@[simp] theorem panics_returns_pure (a b : α) : ProcfsPanics.Returns fs (pure a) b ↔ a = b := by
  simp [ProcfsPanics.Returns]

@[simp] theorem panics_returns_lift (x : Procfs α) (a : α) :
    ProcfsPanics.Returns fs (OptionT.lift x) a ↔ Procfs.resultOn fs x = .ok a := by
  rw [ProcfsPanics.Returns, OptionT.run_lift, Procfs.resultOn_bind]
  cases Procfs.resultOn fs x <;> simp

@[simp] theorem panics_returns_checked (x : Checked α) (a : α) :
    ProcfsPanics.Returns fs x.lift a ↔ x.Returns a := by
  rw [ProcfsPanics.Returns, Checked.lift, Checked.Returns]
  rcases x.run with _ | e | b <;> simp

@[simp] theorem panics_returns_bind (x : ProcfsPanics α) (f : α → ProcfsPanics β) (b : β) :
    ProcfsPanics.Returns fs (x >>= f) b ↔ ∃ a, x.Returns fs a ∧ (f a).Returns fs b := by
  simp only [ProcfsPanics.Returns, OptionT.run_bind, Option.elimM, Procfs.resultOn_bind]
  rcases Procfs.resultOn fs x.run with e | _ | a <;> simp

end Panics

def netFiles : List (String × Protocol) := [("tcp", .tcp), ("tcp6", .tcp6), ("udp", .udp), ("udp6", .udp6)]

def readTables (ownedInodes : Finset UInt64) (netDir : String) :
    List (String × Protocol) → ProcfsPanics (List NetworkConnection)
  | [] => pure []
  | (fileName, protocol) :: files => do
    let path := join netDir fileName
    match ← OptionT.lift (readToStringOptional path) with
    | none => readTables ownedInodes netDir files
    | some content => do
      let rows ← (parseTcpUdp content protocol path).lift
      let connections ← readTables ownedInodes netDir files
      pure (rows.filter (·.inode ∈ ownedInodes) ++ connections)

def readConnections (root : String) (pid : Pid) : ProcfsPanics (List NetworkConnection) := do
  let ownedInodes ← OptionT.lift (socketInodes root pid)
  let netDir := procPath root pid "net"
  let connections ← readTables ownedInodes netDir netFiles
  match ← OptionT.lift (readToStringOptional (join netDir "unix")) with
  | none => pure connections
  | some content => pure (connections ++ (parseUnix content).filter (·.inode ∈ ownedInodes))

/-- An address and a port that are all zero. -/
def IsUnspecified (field : Text) (path : String) : Prop :=
  ∃ addrHex portHex bytes, Text.splitOnce ':' field = some (addrHex, portHex) ∧
    Text.parseHexU16 portHex = some 0 ∧
    (hexBytes (parseErr path ("bad address hex '" ++ String.ofList addrHex ++ "'")) addrHex).Returns bytes ∧
    ∀ byte ∈ bytes, byte = 0

theorem mem_swapWords (bytes : List UInt8) (byte : UInt8) : byte ∈ swapWords bytes ↔ byte ∈ bytes := by
  induction bytes using swapWords.induct with
  | case1 a b c d rest ih => simp only [swapWords, List.mem_cons, ih]; tauto
  | case2 rest h => rw [swapWords]; exact h

theorem length_swapWords (bytes : List UInt8) : (swapWords bytes).length = bytes.length := by
  induction bytes using swapWords.induct with
  | case1 a b c d rest ih => simp [swapWords, ih]
  | case2 rest h => rw [swapWords]; exact h

theorem segment_eq_zero_iff (high low : UInt8) :
    UInt16.ofNat (256 * high.toNat + low.toNat) = 0 ↔ high = 0 ∧ low = 0 := by
  have hhigh := high.toNat_lt
  have hlow := low.toNat_lt
  rw [← UInt16.toNat_inj, ← UInt8.toNat_inj, ← UInt8.toNat_inj, UInt16.toNat_ofNat_of_lt' (by
    change _ < 65536
    omega)]
  simp only [UInt16.toNat_zero, UInt8.toNat_zero]
  omega

/-- Segments are all zero when their octets are. -/
theorem segmentsOf_zero_iff {n : Nat} {octets : List UInt8} (h : octets.length = 2 * n) :
    (segmentsOf octets).length = n ∧
      ((∀ segment ∈ segmentsOf octets, segment = 0) ↔ ∀ octet ∈ octets, octet = 0) := by
  induction n generalizing octets with
  | zero =>
    obtain rfl := List.length_eq_zero_iff.mp h
    simp [segmentsOf]
  | succ n ih =>
    match octets, h with
    | high :: low :: rest, h =>
      have hrest : rest.length = 2 * n := by
        simp only [List.length_cons] at h
        omega
      obtain ⟨hlength, hzero⟩ := ih hrest
      refine ⟨congrArg (· + 1) hlength, ?_⟩
      simp only [segmentsOf, List.forall_mem_cons, hzero, segment_eq_zero_iff, and_assoc]

/-- What an address decodes to, of four bytes or of sixteen. -/
theorem decodeHexAddr_returns {hex : Text} {path : String} {addr : Text}
    (h : (decodeHexAddr hex path).Returns addr) :
    ∃ bytes, (hexBytes (parseErr path ("bad address hex '" ++ String.ofList hex ++ "'")) hex).Returns bytes ∧
      ((∃ a b c d, bytes = [a, b, c, d] ∧ addr = IpText.dotted d c b a) ∨
        bytes.length = 16 ∧ addr = IpText.ipv6 (segmentsOf (swapWords bytes))) := by
  rw [decodeHexAddr, returns_bind] at h
  obtain ⟨bytes, hbytes, h⟩ := h
  refine ⟨bytes, hbytes, ?_⟩
  split at h
  · exact .inl ⟨_, _, _, _, rfl, ((returns_pure _ _).mp h).symm⟩
  · split at h
    · exact .inr ⟨‹_›, ((returns_pure _ _).mp h).symm⟩
    · exact absurd h (not_returns_throw _ _)

/-- An address decodes to one of the two unspecified ones when its bytes are zero. -/
theorem decodeHexAddr_unspecified_iff {hex : Text} {path : String} {addr : Text} {bytes : List UInt8}
    (hbytes : (hexBytes (parseErr path ("bad address hex '" ++ String.ofList hex ++ "'")) hex).Returns bytes)
    (h : (decodeHexAddr hex path).Returns addr) :
    (addr = "0.0.0.0".toList ∨ addr = "::".toList) ↔ ∀ byte ∈ bytes, byte = 0 := by
  obtain ⟨bytes', hbytes', h⟩ := decodeHexAddr_returns h
  obtain rfl := hbytes.unique hbytes'
  rcases h with ⟨a, b, c, d, rfl, rfl⟩ | ⟨hlength, rfl⟩
  · have hcolons : IpText.dotted d c b a ≠ "::".toList := by
      intro h
      have hdot := IpText.dot_mem_dotted d c b a
      rw [h] at hdot
      exact absurd hdot (by decide)
    rw [or_iff_left hcolons, IpText.dotted_eq_zeros_iff]
    simp
    tauto
  · have hswapped : (swapWords bytes).length = 2 * 8 := by rw [length_swapWords, hlength]
    obtain ⟨hsegments, hzero⟩ := segmentsOf_zero_iff hswapped
    have hdots : IpText.ipv6 (segmentsOf (swapWords bytes)) ≠ "0.0.0.0".toList := by
      intro h
      have hcolon := IpText.colon_mem_ipv6 hsegments
      rw [h] at hcolon
      exact absurd hcolon (by decide)
    rw [or_iff_right hdots]
    refine (IpText.ipv6_eq_colons_iff hsegments).trans (hzero.trans ?_)
    simp only [mem_swapWords]

theorem decodeHexAddrPort_returns {field : Text} {path : String} {text : Text} {port : UInt16}
    (h : (decodeHexAddrPort field path).Returns (text, port)) :
    ∃ addrHex portHex addr, Text.splitOnce ':' field = some (addrHex, portHex) ∧
      Text.parseHexU16 portHex = some port ∧ (decodeHexAddr addrHex path).Returns addr ∧
      text = addr ++ ':' :: IpText.decimal port.toNat := by
  rw [decodeHexAddrPort] at h
  split at h
  · exact absurd h (not_returns_throw _ _)
  · rename_i addrHex portHex hsplit
    split at h
    · exact absurd h (not_returns_throw _ _)
    · rename_i port' hport
      obtain ⟨addr, haddr, h⟩ := (returns_bind _ _ _).mp h
      obtain ⟨rfl, rfl⟩ := Prod.mk.inj ((returns_pure _ _).mp h)
      exact ⟨addrHex, portHex, addr, hsplit, hport, haddr, rfl⟩

/-- A field decodes to one of these texts when it is all zero. -/
theorem decodeHexAddrPort_unspecified_iff {field : Text} {path : String} {text : Text} {port : UInt16}
    (h : (decodeHexAddrPort field path).Returns (text, port)) :
    (text = "0.0.0.0:0".toList ∨ text = ":::0".toList) ↔ IsUnspecified field path := by
  obtain ⟨addrHex, portHex, addr, hsplit, hport, haddr, rfl⟩ := decodeHexAddrPort_returns h
  obtain ⟨bytes, hbytes, -⟩ := decodeHexAddr_returns haddr
  have hzero := decodeHexAddr_unspecified_iff hbytes haddr
  have hportZero : IpText.decimal port.toNat = ['0'] ↔ port = 0 :=
    (IpText.decimal_eq_zero_iff _).trans ⟨fun h => UInt16.toNat_inj.mp h, fun h => h ▸ rfl⟩
  have htext (prior : Text) : addr ++ ':' :: IpText.decimal port.toNat = prior ++ ':' :: ['0'] ↔
      addr = prior ∧ port = 0 := by
    rw [← hportZero]
    constructor
    · exact IpText.last_field_inj (IpText.notMem_decimal rfl _) (by decide)
    · rintro ⟨rfl, hport⟩
      rw [hport]
  have hboth := or_congr (htext "0.0.0.0".toList) (htext "::".toList)
  refine hboth.trans ?_
  rw [← or_and_right, hzero]
  constructor
  · rintro ⟨hbytesZero, rfl⟩
    exact ⟨addrHex, portHex, bytes, hsplit, hport, hbytes, hbytesZero⟩
  · rintro ⟨addrHex', portHex', bytes', hsplit', hport', hbytes', hbytesZero⟩
    obtain ⟨rfl, rfl⟩ := Prod.mk.inj (Option.some.inj (hsplit.symm.trans hsplit'))
    obtain rfl := hbytes.unique hbytes'
    exact ⟨hbytesZero, Option.some.inj (hport.symm.trans hport')⟩

/-- The rows are those of the lines that are not blank, and each of these is parsed. -/
theorem parseRows_returns {protocol : Protocol} {path : String} {lines : List Text}
    {rows : List NetworkConnection} (h : (parseRows protocol path lines).Returns rows) :
    (∀ line ∈ lines, ∀ fields, rowFields line = some fields →
      ∃ conn ∈ rows, (parseRow fields protocol path).Returns conn) ∧
    ∀ conn ∈ rows, ∃ line ∈ lines, ∃ fields, rowFields line = some fields ∧
      (parseRow fields protocol path).Returns conn := by
  induction lines generalizing rows with
  | nil =>
    obtain rfl := (returns_pure _ _).mp h
    simp
  | cons line lines ih =>
    rw [parseRows] at h
    split at h
    · rename_i hfields
      simpa [hfields] using ih h
    · rename_i fields hfields
      obtain ⟨row, hrow, h⟩ := (returns_bind _ _ _).mp h
      obtain ⟨rest, hrest, h⟩ := (returns_bind _ _ _).mp h
      obtain rfl := (returns_pure _ _).mp h
      obtain ⟨hparsed, hfrom⟩ := ih hrest
      constructor
      · intro l hl fields' hfields'
        rcases List.mem_cons.mp hl with rfl | hl
        · obtain rfl := Option.some.inj (hfields.symm.trans hfields')
          exact ⟨row, List.mem_cons_self .., hrow⟩
        · obtain ⟨conn, hm, hconn⟩ := hparsed l hl fields' hfields'
          exact ⟨conn, List.mem_cons_of_mem _ hm, hconn⟩
      · intro conn hm
        rcases List.mem_cons.mp hm with rfl | hm
        · exact ⟨line, List.mem_cons_self .., fields, hfields, hrow⟩
        · obtain ⟨l, hl, hconn⟩ := hfrom conn hm
          exact ⟨l, List.mem_cons_of_mem _ hl, hconn⟩

/-- What a connection takes from its row. -/
structure ParsedRow (fields : RowFields) (protocol : Protocol) (path : String) (conn : NetworkConnection) : Prop where
  protocol : conn.protocol = protocol
  inode : Text.parseU64 fields.inode = some conn.inode
  localAddr : ∃ text port, (decodeHexAddrPort fields.localAddress path).Returns (text, port) ∧
    conn.localAddr = String.ofList text
  remoteAddr : ∃ text port, (decodeHexAddrPort fields.remAddress path).Returns (text, port) ∧
    conn.remoteAddr = String.ofList text

theorem parseRow_returns {fields : RowFields} {protocol : Protocol} {path : String} {conn : NetworkConnection}
    (h : (parseRow fields protocol path).Returns conn) : ParsedRow fields protocol path conn := by
  rw [parseRow, returns_bind] at h
  obtain ⟨⟨localText, localPort⟩, hlocal, h⟩ := h
  obtain ⟨⟨text, port⟩, hremote, h⟩ := (returns_bind _ _ _).mp h
  dsimp only at h
  split at h
  · split at h
    · rename_i hinode
      obtain rfl := (returns_pure _ _).mp h
      exact ⟨rfl, hinode, ⟨localText, localPort, hlocal, rfl⟩, text, port, hremote, rfl⟩
    · exact absurd h (not_returns_throw _ _)
  · exact absurd h (not_returns_throw _ _)

/-- The connections of the tables are the rows of the files that are there, where the process owns the
socket. -/
theorem readTables_returns {fs : FileSystem} {ownedInodes : Finset UInt64} {netDir : String}
    {files : List (String × Protocol)} {conns : List NetworkConnection}
    (h : (readTables ownedInodes netDir files).Returns fs conns) :
    (∀ file ∈ files, ∀ content, fs.text (join netDir file.1) = .ok content →
      ∃ rows, (parseTcpUdp content file.2 (join netDir file.1)).Returns rows) ∧
    ∀ conn, conn ∈ conns ↔ conn.inode ∈ ownedInodes ∧ ∃ file ∈ files, ∃ content rows,
      fs.text (join netDir file.1) = .ok content ∧
      (parseTcpUdp content file.2 (join netDir file.1)).Returns rows ∧ conn ∈ rows := by
  induction files generalizing conns with
  | nil =>
    obtain rfl := (panics_returns_pure _ _ _).mp h
    simp
  | cons file files ih =>
    rw [readTables, panics_returns_bind] at h
    obtain ⟨content, hcontent, h⟩ := h
    rw [panics_returns_lift, resultOn_readToStringOptional_ok_iff] at hcontent
    rcases hcontent with ⟨hmissing, rfl⟩ | ⟨content, htext, rfl⟩
    · simpa [hmissing] using ih h
    · dsimp only at h
      simp only [panics_returns_bind, panics_returns_checked, panics_returns_pure] at h
      obtain ⟨rows, hrows, rest, hrest, rfl⟩ := h
      obtain ⟨hread, hmem⟩ := ih hrest
      have hsame (rows' : List NetworkConnection) :
          (parseTcpUdp content file.2 (join netDir file.1)).Returns rows' ↔ rows' = rows :=
        ⟨fun h => h.unique hrows, fun h => h ▸ hrows⟩
      constructor
      · intro file' hfile content' htext'
        rcases List.mem_cons.mp hfile with rfl | hfile
        · obtain rfl := Except.ok.inj (htext.symm.trans htext')
          exact ⟨rows, hrows⟩
        · exact hread file' hfile content' htext'
      · intro conn
        simp [hmem, htext, hsame]
        tauto

/-- Row by row: each is parsed, and those that the process owns are the connections. -/
theorem readTables_rows {fs : FileSystem} {ownedInodes : Finset UInt64} {netDir : String}
    {files : List (String × Protocol)} {conns : List NetworkConnection}
    (h : (readTables ownedInodes netDir files).Returns fs conns) :
    (∀ file ∈ files, ∀ content, fs.text (join netDir file.1) = .ok content →
      ∀ line ∈ (Text.lines content).drop 1, ∀ fields, rowFields line = some fields →
        ∃ conn, (parseRow fields file.2 (join netDir file.1)).Returns conn) ∧
    ∀ conn, conn ∈ conns ↔ conn.inode ∈ ownedInodes ∧ ∃ file ∈ files, ∃ content,
      fs.text (join netDir file.1) = .ok content ∧ ∃ line ∈ (Text.lines content).drop 1, ∃ fields,
        rowFields line = some fields ∧ (parseRow fields file.2 (join netDir file.1)).Returns conn := by
  obtain ⟨hread, hmem⟩ := readTables_returns h
  constructor
  · intro file hfile content hcontent line hline fields hfields
    obtain ⟨rows, hrows⟩ := hread file hfile content hcontent
    obtain ⟨conn, -, hconn⟩ := (parseRows_returns hrows).1 line hline fields hfields
    exact ⟨conn, hconn⟩
  · intro conn
    rw [hmem]
    refine and_congr_right fun _ => ?_
    constructor
    · rintro ⟨file, hfile, content, rows, hcontent, hrows, hm⟩
      exact ⟨file, hfile, content, hcontent, (parseRows_returns hrows).2 conn hm⟩
    · rintro ⟨file, hfile, content, hcontent, line, hline, fields, hfields, hconn⟩
      obtain ⟨rows, hrows⟩ := hread file hfile content hcontent
      obtain ⟨conn', hm, hconn'⟩ := (parseRows_returns hrows).1 line hline fields hfields
      obtain rfl := hconn.unique hconn'
      exact ⟨file, hfile, content, rows, hcontent, hrows, hm⟩

/-- A socket of the process whose row has an all-zero remote field. -/
def OwnsUnspecified (root : String) (pid : Pid) (fs : FileSystem) : Prop :=
  ∃ ownedInodes, Procfs.resultOn fs (socketInodes root pid) = .ok ownedInodes ∧
    ∃ file ∈ netFiles, ∃ content, fs.text (join (procPath root pid "net") file.1) = .ok content ∧
      ∃ line ∈ (Text.lines content).drop 1, ∃ fields, rowFields line = some fields ∧
        IsUnspecified fields.remAddress (join (procPath root pid "net") file.1) ∧
        ∃ inode ∈ ownedInodes, Text.parseU64 fields.inode = some inode

/-- A row shows one of the two texts when its remote field is all zero. -/
theorem parseRow_unspecified_iff {fields : RowFields} {protocol : Protocol} {path : String}
    {conn : NetworkConnection} (h : (parseRow fields protocol path).Returns conn) :
    (conn.remoteAddr = "0.0.0.0:0" ∨ conn.remoteAddr = ":::0") ↔ IsUnspecified fields.remAddress path := by
  obtain ⟨text, port, hremote, haddr⟩ := (parseRow_returns h).remoteAddr
  rw [haddr, ← decodeHexAddrPort_unspecified_iff hremote, ← String.toList_inj, ← String.toList_inj,
    String.toList_ofList]

/-- A row of net/unix is a Unix socket, which has no peer. -/
theorem mem_parseUnix {content : Text} {conn : NetworkConnection} (h : conn ∈ parseUnix content) :
    conn.protocol = .unix ∧ conn.remoteAddr = "" := by
  obtain ⟨line, -, h⟩ := List.mem_filterMap.mp h
  split at h
  · obtain ⟨inode, -, rfl⟩ := Option.map_eq_some_iff.mp h
    exact ⟨rfl, rfl⟩
  · cases h

/-- The connections that are read are those of the tables, and the Unix sockets of the process. -/
theorem readConnections_returns {root : String} {pid : Pid} {fs : FileSystem} {conns : List NetworkConnection}
    (h : (readConnections root pid).Returns fs conns) :
    ∃ ownedInodes rows, Procfs.resultOn fs (socketInodes root pid) = .ok ownedInodes ∧
      (readTables ownedInodes (procPath root pid "net") netFiles).Returns fs rows ∧
      ∀ conn, conn ∈ conns ↔ conn ∈ rows ∨ conn.inode ∈ ownedInodes ∧ ∃ content,
        fs.text (join (procPath root pid "net") "unix") = .ok content ∧ conn ∈ parseUnix content := by
  rw [readConnections, panics_returns_bind] at h
  obtain ⟨ownedInodes, howned, h⟩ := h
  simp only [panics_returns_bind, panics_returns_lift, resultOn_readToStringOptional_ok_iff] at h
  obtain ⟨rows, hrows, content, hcontent, h⟩ := h
  refine ⟨ownedInodes, rows, (panics_returns_lift _ _ _).mp howned, hrows, ?_⟩
  intro conn
  rcases hcontent with ⟨hmissing, rfl⟩ | ⟨content, htext, rfl⟩
  · obtain rfl := (panics_returns_pure _ _ _).mp h
    simp [hmissing]
  · obtain rfl := (panics_returns_pure _ _ _).mp h
    simp [htext, and_comm]

/-- A connection with one of the two texts is read for a process that owns such a socket, and only then. -/
theorem readConnections_unspecified_iff {root : String} {pid : Pid} {fs : FileSystem}
    {conns : List NetworkConnection} (h : (readConnections root pid).Returns fs conns) :
    (∃ conn ∈ conns, conn.remoteAddr = "0.0.0.0:0" ∨ conn.remoteAddr = ":::0") ↔
      OwnsUnspecified root pid fs := by
  obtain ⟨ownedInodes, rows, howned, hrows, hconns⟩ := readConnections_returns h
  obtain ⟨hparsed, hmem⟩ := readTables_rows hrows
  constructor
  · rintro ⟨conn, hm, htext⟩
    rcases (hconns conn).mp hm with hm | ⟨-, content, -, hunix⟩
    · obtain ⟨hinode, file, hfile, content, hcontent, line, hline, fields, hfields, hconn⟩ := (hmem conn).mp hm
      exact ⟨ownedInodes, howned, file, hfile, content, hcontent, line, hline, fields, hfields,
        (parseRow_unspecified_iff hconn).mp htext, conn.inode, hinode, (parseRow_returns hconn).inode⟩
    · rw [(mem_parseUnix hunix).2] at htext
      exact absurd htext (by decide)
  · rintro ⟨owned', howned', file, hfile, content, hcontent, line, hline, fields, hfields, hzero, inode,
      hinode, hparse⟩
    obtain rfl := Except.ok.inj (howned.symm.trans howned')
    obtain ⟨conn, hconn⟩ := hparsed file hfile content hcontent line hline fields hfields
    obtain rfl := Option.some.inj ((parseRow_returns hconn).inode.symm.trans hparse)
    exact ⟨conn, (hconns conn).mpr (.inl ((hmem conn).mpr
      ⟨hinode, file, hfile, content, hcontent, line, hline, fields, hfields, hconn⟩)),
      (parseRow_unspecified_iff hconn).mpr hzero⟩

/-- A text that an all-zero remote field decodes to. -/
def UnspecifiedText (addr : String) : Prop :=
  ∃ field path text port, IsUnspecified field path ∧ (decodeHexAddrPort field path).Returns (text, port) ∧
    addr = String.ofList text

/-- There are two of them, one for each length of address. -/
theorem unspecifiedText_iff (addr : String) : UnspecifiedText addr ↔ addr = "0.0.0.0:0" ∨ addr = ":::0" := by
  constructor
  · rintro ⟨field, path, text, port, hzero, hdecode, rfl⟩
    rw [← String.toList_inj, ← String.toList_inj, String.toList_ofList]
    exact (decodeHexAddrPort_unspecified_iff hdecode).mpr hzero
  · have hdecode4 : (decodeHexAddrPort "00000000:0000".toList "").Returns ("0.0.0.0:0".toList, 0) := by
      rw [Checked.Returns]
      decide
    have hdecode16 : (decodeHexAddrPort "00000000000000000000000000000000:0000".toList "").Returns
        (":::0".toList, 0) := by
      rw [Checked.Returns]
      decide
    rintro (rfl | rfl)
    · exact ⟨_, _, _, _, (decodeHexAddrPort_unspecified_iff hdecode4).mp (.inl rfl), hdecode4, rfl⟩
    · exact ⟨_, _, _, _, (decodeHexAddrPort_unspecified_iff hdecode16).mp (.inr rfl), hdecode16, rfl⟩

end ProcessExplorer.Telemetry.Linux
