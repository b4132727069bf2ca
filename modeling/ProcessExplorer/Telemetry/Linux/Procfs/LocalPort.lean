import ProcessExplorer.Telemetry.Linux.Procfs.Net

/-! The local port of a socket, and the text it ends in: what a test of the ending tells about the
connections that a process has. -/
namespace ProcessExplorer.Telemetry.Linux
open Library Model

def portSuffix (port : UInt16) : Text := ':' :: IpText.decimal port.toNat

/-- A row of the TCP and UDP tables that is this connection, and whose local address decodes with this port. -/
def BoundTo (root : String) (pid : Pid) (fs : FileSystem) (port : UInt16) (conn : NetworkConnection) : Prop :=
  ∃ file ∈ netFiles, ∃ content, fs.text (join (procPath root pid "net") file.1) = .ok content ∧
    ∃ line ∈ (Text.lines content).drop 1, ∃ fields, rowFields line = some fields ∧
      (parseRow fields file.2 (join (procPath root pid "net") file.1)).Returns conn ∧
      ∃ text, (decodeHexAddrPort fields.localAddress (join (procPath root pid "net") file.1)).Returns (text, port)

def OwnsUnixPath (root : String) (pid : Pid) (fs : FileSystem) (ending : Text) : Prop :=
  ∃ ownedInodes content, Procfs.resultOn fs (socketInodes root pid) = .ok ownedInodes ∧
    fs.text (join (procPath root pid "net") "unix") = .ok content ∧
    ∃ conn ∈ parseUnix content, conn.inode ∈ ownedInodes ∧ ending <:+ conn.localAddr.toList

/-- An address and port end in a port when it is theirs: no address has its last colon after it. -/
theorem portSuffix_isSuffix_iff {field : Text} {path : String} {text : Text} {decoded port : UInt16}
    (h : (decodeHexAddrPort field path).Returns (text, decoded)) : portSuffix port <:+ text ↔ decoded = port := by
  obtain ⟨_, _, addr, -, -, -, rfl⟩ := decodeHexAddrPort_returns h
  constructor
  · rintro ⟨before, hsplit⟩
    have hcolon (n : Nat) : ':' ∉ IpText.decimal n := IpText.notMem_decimal rfl n
    obtain ⟨-, hport⟩ := IpText.last_field_inj (hcolon _) (hcolon _) hsplit
    exact UInt16.toNat_inj.mp (IpText.decimal_inj hport.symm)
  · rintro rfl
    exact List.suffix_append _ _

section Read
variable {root : String} {pid : Pid} {fs : FileSystem} {conns : List NetworkConnection} {port : UInt16}
  {conn : NetworkConnection}

theorem BoundTo.isSuffix (h : BoundTo root pid fs port conn) : portSuffix port <:+ conn.localAddr.toList := by
  obtain ⟨file, -, content, -, line, -, fields, -, hconn, text, hdecode⟩ := h
  obtain ⟨text', decoded, hlocal, haddr⟩ := (parseRow_returns hconn).localAddr
  obtain ⟨rfl, rfl⟩ := Prod.mk.inj (hlocal.unique hdecode)
  rw [haddr, String.toList_ofList]
  exact (portSuffix_isSuffix_iff hlocal).mpr rfl

theorem BoundTo.protocol (h : BoundTo root pid fs port conn) : conn.protocol ∈ netFiles.map Prod.snd := by
  obtain ⟨file, hfile, content, -, line, -, fields, -, hconn, -⟩ := h
  rw [(parseRow_returns hconn).protocol]
  exact List.mem_map_of_mem hfile

/-- A connection that was read and ends in a port is bound to it, or is a Unix socket. -/
theorem boundTo_or_unix (h : (readConnections root pid).Returns fs conns) (hm : conn ∈ conns)
    (hsuffix : portSuffix port <:+ conn.localAddr.toList) :
    BoundTo root pid fs port conn ∨ OwnsUnixPath root pid fs (portSuffix port) := by
  obtain ⟨ownedInodes, rows, howned, hrows, hconns⟩ := readConnections_returns h
  rcases (hconns conn).mp hm with hm | ⟨hinode, content, hcontent, hunix⟩
  · obtain ⟨-, file, hfile, content, hcontent, line, hline, fields, hfields, hconn⟩ :=
      ((readTables_rows hrows).2 conn).mp hm
    obtain ⟨text, decoded, hlocal, haddr⟩ := (parseRow_returns hconn).localAddr
    rw [haddr, String.toList_ofList] at hsuffix
    obtain rfl := (portSuffix_isSuffix_iff hlocal).mp hsuffix
    exact .inl ⟨file, hfile, content, hcontent, line, hline, fields, hfields, hconn, text, hlocal⟩
  · exact .inr ⟨ownedInodes, content, howned, hcontent, conn, hunix, hinode, hsuffix⟩

theorem OwnsUnixPath.read {ending : Text} (hpath : OwnsUnixPath root pid fs ending)
    (h : (readConnections root pid).Returns fs conns) :
    ∃ conn ∈ conns, conn.protocol = .unix ∧ ending <:+ conn.localAddr.toList := by
  obtain ⟨ownedInodes, content, howned, hcontent, conn, hunix, hinode, hsuffix⟩ := hpath
  obtain ⟨owned', rows, howned', -, hconns⟩ := readConnections_returns h
  obtain rfl := Except.ok.inj (howned.symm.trans howned')
  exact ⟨conn, (hconns conn).mpr (.inr ⟨hinode, content, hcontent, hunix⟩), (mem_parseUnix hunix).1, hsuffix⟩

end Read

end ProcessExplorer.Telemetry.Linux
