import ProcessExplorer.Library.Words
import ProcessExplorer.Telemetry.Linux.Procfs.Net

/-! The rows of net/unix as the kernel prints them. The name is the tail of its row, whatever it holds; the
reader takes one word of it. -/
namespace ProcessExplorer.Telemetry.Linux
open Library Model

/-- A Unix socket as it is listed; one that is not bound has no name. -/
structure UnixSocket where
  address : UInt64
  refCount : UInt32
  flags : UInt32
  type : UInt16
  state : UInt8
  inode : UInt64
  name : Option Text
  named : ∀ text ∈ name, text ≠ []
  oneLine : ∀ text ∈ name, '\n' ∉ text

namespace UnixSocket
variable (socket : UnixSocket)

/-- The columns before the inode. The address ends in a colon, and the protocol is always zero. -/
def words : List Text :=
  [(Text.paddedHex 16 socket.address.toNat) ++ [':'], Text.upperHex 8 socket.refCount.toNat, Text.upperHex 8 0,
    Text.upperHex 8 socket.flags.toNat, Text.upperHex 4 socket.type.toNat, Text.upperHex 2 socket.state.toNat]

def inodeText : Text := Text.ofInt socket.inode.toNat

/-- The inode is at least five columns wide, and a name follows it after a blank. -/
def row : Text :=
  socket.words.flatMap (· ++ [' ']) ++
    (List.replicate (5 - socket.inodeText.length) ' ' ++ (socket.inodeText ++ socket.name.elim [] (' ' :: ·)))

def text : Text := socket.name.getD []

end UnixSocket

def unixHeader : Text := "Num       RefCount Protocol Flags    Type St Inode Path".toList

/-- The whole of net/unix. -/
def unixTable (sockets : List UnixSocket) : Text :=
  (unixHeader :: sockets.map UnixSocket.row).flatMap (· ++ ['\n'])

example : UnixSocket.row { address := 0, refCount := 2, flags := 0x10000, type := 1, state := 1, inode := 3000
                           name := some "/run/sherd.sock".toList, named := by simp
                           oneLine := by decide } =
    "0000000000000000: 00000002 00000000 00010000 0001 01  3000 /run/sherd.sock".toList := by
  decide +kernel

/-- One row, split into words. -/
def unixRow (words : List Text) : Option NetworkConnection :=
  match words with
  | _ :: _ :: _ :: _ :: _ :: _ :: inode :: rest =>
    (Text.parseU64 inode).map fun inode => ⟨.unix, String.ofList (rest.head?.getD []), "", .unknown, inode⟩
  | _ => none

theorem parseUnix_eq (content : Text) :
    parseUnix content = (((Text.lines content).map Text.splitWhitespace).drop 1).filterMap unixRow := by
  rw [← List.map_drop, List.filterMap_map]
  rfl

section Rows
variable (socket : UnixSocket)

theorem isWord_of_mem_unixWords : ∀ w ∈ socket.words, Text.IsWord w := by
  have hcolon : Text.IsWord [':'] := ⟨by decide, List.forall_mem_singleton.mpr rfl⟩
  simp only [UnixSocket.words, List.forall_mem_cons]
  exact ⟨(Text.isWord_paddedHex _ _).append hcolon, Text.isWord_upperHex (by decide) _,
    Text.isWord_upperHex (by decide) _, Text.isWord_upperHex (by decide) _, Text.isWord_upperHex (by decide) _,
    Text.isWord_upperHex (by decide) _, List.forall_mem_nil _⟩

theorem splitWhitespace_unixRow : Text.splitWhitespace socket.row =
    socket.words ++ socket.inodeText :: Text.splitWhitespace socket.text := by
  have hinode : Text.IsWord socket.inodeText := Text.isWord_ofInt _
  rw [UnixSocket.row, Text.splitWhitespace_columns (isWord_of_mem_unixWords socket),
    Text.splitWhitespace_replicate_append]
  congr 1
  cases hname : socket.name with
  | none =>
    simp [UnixSocket.text, hname, Text.splitWhitespace_of_isWord hinode]
    rfl
  | some name =>
    rw [Option.elim_some, Text.splitWhitespace_append_cons hinode (by decide), UnixSocket.text, hname,
      Option.getD_some]

/-- What is read of a row: the inode, and the first word of the name. -/
theorem unixRow_row : unixRow (Text.splitWhitespace socket.row) =
    some ⟨.unix, String.ofList ((Text.splitWhitespace socket.text).head?.getD []), "", .unknown, socket.inode⟩ := by
  rw [splitWhitespace_unixRow]
  simp [unixRow, UnixSocket.words, UnixSocket.inodeText, Text.parseU64_ofInt]

theorem newline_notMem_unixRow : '\n' ∉ socket.row := by
  have hinode : '\n' ∉ socket.inodeText := by
    intro h
    have hvisible := Text.not_isWhitespace_of_mem_ofInt h
    cases hvisible
  have hname : '\n' ∉ socket.name.elim [] (' ' :: ·) := by
    cases h : socket.name with
    | none => exact List.not_mem_nil
    | some name => exact List.not_mem_cons_of_ne_of_not_mem (by decide) (socket.oneLine name h)
  simp only [UnixSocket.row, List.mem_append, not_or]
  exact ⟨Text.newline_notMem_columns (isWord_of_mem_unixWords socket),
    fun h => absurd (List.eq_of_mem_replicate h) (by decide), hinode, hname⟩

end Rows

theorem parseUnix_unixTable (sockets : List UnixSocket) :
    parseUnix (unixTable sockets) = sockets.map fun s =>
      ⟨.unix, String.ofList ((Text.splitWhitespace s.text).head?.getD []), "", .unknown, s.inode⟩ := by
  have hrows : ∀ row ∈ unixHeader :: sockets.map UnixSocket.row, '\n' ∉ row := by
    refine List.forall_mem_cons.mpr ⟨by decide, ?_⟩
    intro row hrow
    obtain ⟨socket, -, rfl⟩ := List.mem_map.mp hrow
    exact newline_notMem_unixRow socket
  rw [parseUnix_eq, unixTable, Text.map_lines_terminated (Text.splitWhitespace_concat (by decide)) hrows,
    List.map_cons, List.drop_one, List.tail_cons, List.map_map, List.filterMap_map, ← List.filterMap_eq_map]
  refine List.filterMap_congr fun socket _ => ?_
  rw [Function.comp_apply, Function.comp_apply, unixRow_row, Function.comp_apply]

/-- The first word of a name is the whole of it just when no white space is in it. -/
theorem head?_splitWhitespace_eq_iff {name : Text} (hname : name ≠ []) :
    (Text.splitWhitespace name).head?.getD [] = name ↔ ∀ c ∈ name, Text.isWhitespace c = false := by
  constructor
  · intro h
    cases hwords : Text.splitWhitespace name with
    | nil =>
      rw [hwords] at h
      exact absurd h.symm hname
    | cons w words =>
      have hw : Text.IsWord w := Text.mem_splitWhitespace (hwords ▸ List.mem_cons_self)
      rw [hwords] at h
      obtain rfl : w = name := h
      exact hw.2
  · intro h
    rw [Text.splitWhitespace_of_isWord ⟨hname, h⟩]
    rfl

/-- Every socket is read with the name it is listed under when no name has white space in it. -/
theorem parseUnix_rendered_iff (sockets : List UnixSocket) :
    (parseUnix (unixTable sockets)).map (fun c => (c.inode, c.localAddr.toList)) =
        sockets.map (fun s => (s.inode, s.text)) ↔
      ∀ s ∈ sockets, ∀ name ∈ s.name, ∀ c ∈ name, Text.isWhitespace c = false := by
  rw [parseUnix_unixTable, List.map_map, List.map_inj_left]
  refine forall₂_congr fun s _ => ?_
  simp only [Function.comp_apply, String.toList_ofList, Prod.mk.injEq, true_and, UnixSocket.text]
  cases hname : s.name with
  | none => simp [Text.splitWhitespace]
  | some name =>
    rw [Option.getD_some, head?_splitWhitespace_eq_iff (s.named name hname)]
    simp

/-- The socket of a program that put a blank into its name. -/
def spacedSocket : UnixSocket where
  address := 0
  refCount := 2
  flags := 0x10000
  type := 1
  state := 1
  inode := 3001
  name := some "/run/my app.sock".toList
  named := by simp
  oneLine := by decide

/-- It is listed under the first word of it. -/
theorem parseUnix_cuts_name :
    parseUnix (unixTable [spacedSocket]) = [⟨.unix, "/run/my", "", .unknown, 3001⟩] ∧
      spacedSocket.text = "/run/my app.sock".toList := by
  decide +kernel

end ProcessExplorer.Telemetry.Linux
