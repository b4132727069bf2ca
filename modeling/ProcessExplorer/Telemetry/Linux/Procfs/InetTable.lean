import ProcessExplorer.Library.Words
import ProcessExplorer.Telemetry.Linux.Procfs.NetAddress

/-! The rows of net/{tcp,tcp6,udp,udp6} as the kernel prints them, and the connections read back from them. -/
namespace ProcessExplorer.Telemetry.Linux
open Library Model

/-- A socket as it is listed. The columns after the inode depend on the protocol and are not read. -/
structure InetSocket where
  slot : ℕ
  localAddress : IpAddress
  localPort : UInt16
  remAddress : IpAddress
  remPort : UInt16
  state : UInt8
  txQueue : UInt32
  rxQueue : UInt32
  timer : UInt8
  expires : UInt32
  retransmits : UInt32
  uid : UInt32
  timeout : UInt32
  inode : UInt64
  further : List Text
  words : ∀ w ∈ further, Text.IsWord w

namespace InetSocket
variable (socket : InetSocket)

/-- Each column with its width. -/
def cells : List (ℕ × Text) :=
  [(5, Text.ofInt socket.slot ++ [':']),
    (0, socket.localAddress.printed socket.localPort),
    (0, socket.remAddress.printed socket.remPort),
    (0, Text.upperHex 2 socket.state.toNat),
    (0, Text.upperHex 8 socket.txQueue.toNat ++ ':' :: Text.upperHex 8 socket.rxQueue.toNat),
    (0, Text.upperHex 2 socket.timer.toNat ++ ':' :: Text.upperHex 8 socket.expires.toNat),
    (0, Text.upperHex 8 socket.retransmits.toNat),
    (5, Text.ofInt socket.uid.toNat),
    (8, Text.ofInt socket.timeout.toNat),
    (0, Text.ofInt socket.inode.toNat)] ++ socket.further.map fun w => (0, w)

def row : Text := Text.columns socket.cells

/-- What is to be read of the socket. -/
def connection (protocol : Protocol) : NetworkConnection where
  protocol := protocol
  localAddr := String.ofList (socket.localAddress.display ++ ':' :: IpText.decimal socket.localPort.toNat)
  remoteAddr := String.ofList (socket.remAddress.display ++ ':' :: IpText.decimal socket.remPort.toNat)
  state := .fromProcHex socket.state
  inode := socket.inode

end InetSocket

/-- A whole file: its header line, and a line for every socket. -/
def inetTable (header : Text) (sockets : List InetSocket) : Text :=
  header ++ '\n' :: (sockets.map InetSocket.row).flatMap (· ++ ['\n'])

example : InetSocket.row { slot := 0, localAddress := .v4 127 0 0 1, localPort := 8080, remAddress := .v4 10 0 0 10
                           remPort := 443, state := 1, txQueue := 0, rxQueue := 0, timer := 0, expires := 0
                           retransmits := 0, uid := 1000, timeout := 0, inode := 999, further := []
                           words := List.forall_mem_nil _ } =
    ("   0: 0100007F:1F90 0A00000A:01BB 01 00000000:00000000 00:00000000 00000000  1000        0 999 ").toList := by
  decide +kernel

theorem isWord_printed (addr : IpAddress) (port : UInt16) : Text.IsWord (addr.printed port) := by
  have hwords (octets : List UInt8) : ∀ c ∈ printedWords octets, Text.isWhitespace c = false := by
    induction octets using printedWords.induct with
    | case1 a b c d rest ih =>
      rw [printedWords]
      exact List.forall_mem_append.mpr ⟨(Text.isWord_upperHex (by decide) _).2, ih⟩
    | case2 rest h =>
      rw [printedWords]
      · exact List.forall_mem_nil _
      · exact h
  refine ⟨by simp [IpAddress.printed], ?_⟩
  exact List.forall_mem_append.mpr ⟨hwords _, ((Text.isWord_upperHex (by decide) _).cons (by decide)).2⟩

section Rows
variable (socket : InetSocket)

theorem isWord_of_mem_cells : ∀ cell ∈ socket.cells, Text.IsWord cell.2 := by
  have hhex {width : ℕ} (n : ℕ) (h : 0 < width) : Text.IsWord (Text.upperHex width n) := Text.isWord_upperHex h n
  have hpair {width : ℕ} (m n : ℕ) (h : 0 < width) :
      Text.IsWord (Text.upperHex width m ++ ':' :: Text.upperHex 8 n) :=
    (hhex m h).append ((hhex n (by decide)).cons (by decide))
  have hslot : Text.IsWord (Text.ofInt socket.slot ++ [':']) :=
    (Text.isWord_ofInt _).append ⟨by decide, List.forall_mem_singleton.mpr rfl⟩
  simp only [InetSocket.cells, List.forall_mem_append, List.forall_mem_cons, List.forall_mem_map]
  refine ⟨⟨hslot, isWord_printed _ _, isWord_printed _ _, hhex _ (by decide), hpair _ _ (by decide),
    hpair _ _ (by decide), hhex _ (by decide), Text.isWord_ofInt _, Text.isWord_ofInt _, Text.isWord_ofInt _,
    List.forall_mem_nil _⟩, socket.words⟩

/-- What is read of a row. -/
theorem rowFields_row : rowFields socket.row =
    some ⟨socket.localAddress.printed socket.localPort, socket.remAddress.printed socket.remPort,
      Text.upperHex 2 socket.state.toNat, Text.ofInt socket.inode.toNat⟩ := by
  have hsplit := Text.splitWhitespace_columns_append (isWord_of_mem_cells socket) []
  rw [List.append_nil] at hsplit
  rw [rowFields, InetSocket.row, hsplit]
  rfl

theorem parseRow_row (protocol : Protocol) (path : String) :
    (parseRow ⟨socket.localAddress.printed socket.localPort, socket.remAddress.printed socket.remPort,
      Text.upperHex 2 socket.state.toNat, Text.ofInt socket.inode.toNat⟩ protocol path).Returns
      (socket.connection protocol) := by
  rw [parseRow, returns_bind]
  refine ⟨_, decodeHexAddrPort_printed socket.localAddress socket.localPort path, ?_⟩
  rw [returns_bind]
  refine ⟨_, decodeHexAddrPort_printed socket.remAddress socket.remPort path, ?_⟩
  simp [Text.parseHexU8_upperHex, Text.parseU64_ofInt, InetSocket.connection]

/-- A row ends in a blank, so no part of it is taken for the end of its line. -/
theorem lines_rows (sockets : List InetSocket) :
    Text.lines ((sockets.map InetSocket.row).flatMap (· ++ ['\n'])) = sockets.map InetSocket.row := by
  apply Text.lines_terminated
  · rw [List.forall_mem_map]
    exact fun socket _ => Text.newline_notMem_cells (isWord_of_mem_cells socket)
  · rw [List.forall_mem_map]
    intro socket _
    rw [InetSocket.row, Text.getLast?_columns (by simp [InetSocket.cells])]
    decide

end Rows

/-- Each socket of a table comes back, in the order of the rows and whatever the header says. -/
theorem parseTcpUdp_inetTable {header : Text} (h : '\n' ∉ header) (sockets : List InetSocket)
    (protocol : Protocol) (path : String) :
    (parseTcpUdp (inetTable header sockets) protocol path).Returns (sockets.map (·.connection protocol)) := by
  rw [parseTcpUdp, inetTable, Text.drop_one_lines h, lines_rows]
  induction sockets with
  | nil => rfl
  | cons socket sockets ih =>
    rw [List.map_cons, parseRows, rowFields_row]
    simp only [returns_bind, returns_pure]
    exact ⟨_, parseRow_row socket protocol path, _, ih, rfl⟩

end ProcessExplorer.Telemetry.Linux
