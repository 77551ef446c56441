import Mathlib.Data.List.Basic
import Mathlib.Data.List.TakeWhile

/-!
# Formatting a log line

{lit}`log_vwrite` formats the message into a 256-byte array and the line
{lit}`"[%lu] %s\r\n"` into a 260-byte array.  {lit}`snprintf` and
{lit}`vsnprintf` follow C99: the output is cut to one byte less than the array
and a NUL is put after it.  What the arguments format to is an input of the
model, as a list of bytes that may itself hold a NUL.

Main results:

- Theorem {lit}`formatMessage_length_le`: a message has at most 255 bytes.
- Theorem {lit}`formatLine_bytes`: the line is its full text cut to 259 bytes.
- Theorem {lit}`fullLine_length`: the full text adds five bytes and the digits of
  the timestamp to the message.
-/

namespace RadonMCU
namespace Equinios

/-! ## Strings of the C code -/

/-- A C string: the bytes before the terminating NUL. -/
structure CString where
  bytes : List UInt8
  nul_notMem : 0 ∉ bytes
deriving DecidableEq

/-- The bytes before the first zero byte. -/
theorem nul_notMem_takeWhile (buffer : List UInt8) :
    0 ∉ buffer.takeWhile (fun byte => byte != 0) := by
  intro hmem
  have hne := List.mem_takeWhile_imp hmem
  simp at hne

/-- The C string that starts at an array: its bytes up to the first NUL. -/
def CString.ofBuffer (buffer : List UInt8) : CString :=
  ⟨buffer.takeWhile (fun byte => byte != 0), nul_notMem_takeWhile buffer⟩

/-- {lit}`snprintf` and {lit}`vsnprintf` into an array of {lit}`size` bytes, where
{lit}`output` is the text without the limit. -/
def snprintf (size : Nat) (output : List UInt8) : CString :=
  CString.ofBuffer (output.take (size - 1))

/-- A buffer without a zero byte is a string as a whole. -/
theorem CString.ofBuffer_bytes_of_notMem {buffer : List UInt8} (h : 0 ∉ buffer) :
    (CString.ofBuffer buffer).bytes = buffer := by
  apply List.takeWhile_eq_self_iff.mpr
  intro byte hbyte
  simp only [bne_iff_ne]
  rintro rfl
  exact h hbyte

/-- Without zero bytes {lit}`snprintf` cuts by the size alone. -/
theorem snprintf_bytes_of_notMem {output : List UInt8} (h : 0 ∉ output) (size : Nat) :
    (snprintf size output).bytes = output.take (size - 1) :=
  CString.ofBuffer_bytes_of_notMem fun hmem => h (List.mem_of_mem_take hmem)

/-- {lit}`snprintf` leaves room for the terminating byte. -/
theorem snprintf_length_le (size : Nat) (output : List UInt8) :
    (snprintf size output).bytes.length ≤ size - 1 := by
  have hhead := (List.takeWhile_prefix (fun byte => byte != 0)
    (l := output.take (size - 1))).length_le
  rw [List.length_take] at hhead
  exact hhead.trans (Nat.min_le_left _ _)

/-! ## The texts of the format -/

/-- The byte of an ASCII character. -/
def charByte (c : Char) : UInt8 := UInt8.ofNat c.toNat

/-- The bytes of an ASCII text. -/
def bytesOf (text : String) : List UInt8 := text.toList.map charByte

/-- The byte {lit}`'\n'`. -/
def newline : UInt8 := 10

/-- The bytes that end a line. -/
def crlf : List UInt8 := bytesOf "\r\n"

theorem crlf_eq : crlf = [13, newline] := by decide +kernel

/-- {lit}`%lu` of a 32-bit word. -/
def decimal (n : UInt32) : List UInt8 := (Nat.toDigits 10 n.toNat).map charByte

/-- {lit}`EQUINIOS_LOG_MSG_MAX_LEN`. -/
def logMsgMaxLen : Nat := 256

/-- {lit}`EQUINIOS_LOG_LINE_EXTRA_CHARS`. -/
def logLineExtraChars : Nat := 4

/-- The message {lit}`log_vwrite` keeps of the formatted arguments. -/
def formatMessage (formatted : List UInt8) : CString := snprintf logMsgMaxLen formatted

/-- The text {lit}`"[ts] msg\r\n"` before it is cut. -/
def fullLine (timestamp : UInt32) (message : CString) : List UInt8 :=
  bytesOf "[" ++ decimal timestamp ++ bytesOf "] " ++ message.bytes ++ crlf

/-- The line {lit}`log_vwrite` hands to {lit}`logger_enqueue_line`. -/
def formatLine (timestamp : UInt32) (message : CString) : CString :=
  snprintf (logMsgMaxLen + logLineExtraChars) (fullLine timestamp message)

theorem openBracket_eq : bytesOf "[" = [91] := by decide +kernel

theorem closeBracket_eq : bytesOf "] " = [93, 32] := by decide +kernel

/-! ## Digits of a timestamp -/

/-- A 32-bit word has at most ten decimal digits. -/
theorem decimal_length_le (n : UInt32) : (decimal n).length ≤ 10 := by
  rw [decimal, List.length_map, Nat.length_toDigits_le_iff (by omega) (by omega)]
  have hlt := UInt32.toNat_lt n
  omega

/-- The bytes of digits. -/
theorem charByte_digit {c : Char} (hc : c.isDigit = true) :
    48 ≤ (charByte c).toNat ∧ (charByte c).toNat ≤ 57 := by
  simp only [Char.isDigit, Bool.and_eq_true, decide_eq_true_eq, UInt32.le_iff_toNat_le] at hc
  have hlow : 48 ≤ c.toNat := hc.1
  have hhigh : c.toNat ≤ 57 := hc.2
  rw [charByte, UInt8.toNat_ofNat']
  omega

/-- The bytes of a decimal number are ASCII digits. -/
theorem decimal_digit {n : UInt32} {byte : UInt8} (h : byte ∈ decimal n) :
    48 ≤ byte.toNat ∧ byte.toNat ≤ 57 := by
  obtain ⟨c, hc, rfl⟩ := List.mem_map.mp h
  exact charByte_digit (Nat.isDigit_of_mem_toDigits (by omega) (by omega) hc)

/-- Below the digits no byte is in a number. -/
theorem notMem_decimal {n : UInt32} {byte : UInt8} (h : byte.toNat < 48) :
    byte ∉ decimal n := by
  intro hmem
  have hdigit := decimal_digit hmem
  omega

/-! ## The formatted line -/

/-- A message has at most 255 bytes. -/
theorem formatMessage_length_le (formatted : List UInt8) :
    (formatMessage formatted).bytes.length ≤ 255 :=
  snprintf_length_le logMsgMaxLen formatted

@[simp] theorem fullLine_length (timestamp : UInt32) (message : CString) :
    (fullLine timestamp message).length =
      (decimal timestamp).length + message.bytes.length + 5 := by
  simp only [fullLine, openBracket_eq, closeBracket_eq, crlf_eq, List.length_append,
    List.length_cons, List.length_nil]
  omega

/-- No line contains a zero byte. -/
theorem nul_notMem_fullLine (timestamp : UInt32) (message : CString) :
    0 ∉ fullLine timestamp message := by
  have hdigits : (0 : UInt8) ∉ decimal timestamp := notMem_decimal (by decide)
  simp only [fullLine, openBracket_eq, closeBracket_eq, crlf_eq, List.mem_append, not_or]
  exact ⟨⟨⟨⟨by decide, hdigits⟩, by decide⟩, message.nul_notMem⟩, by decide⟩

/-- The line is its full text cut to 259 bytes. -/
theorem formatLine_bytes (timestamp : UInt32) (message : CString) :
    (formatLine timestamp message).bytes = (fullLine timestamp message).take 259 :=
  snprintf_bytes_of_notMem (nul_notMem_fullLine timestamp message) _

/-- No line is empty. -/
theorem formatLine_ne_nil (timestamp : UInt32) (message : CString) :
    (formatLine timestamp message).bytes ≠ [] := by
  rw [formatLine_bytes, ← List.length_pos_iff, List.length_take, fullLine_length]
  omega

/-- A line whose text fits keeps all of it. -/
theorem formatLine_bytes_of_fits {timestamp : UInt32} {message : CString}
    (h : (fullLine timestamp message).length ≤ 259) :
    (formatLine timestamp message).bytes = fullLine timestamp message := by
  rw [formatLine_bytes, List.take_of_length_le h]

/-- The full text without its last byte. -/
def lineBody (timestamp : UInt32) (message : CString) : List UInt8 :=
  bytesOf "[" ++ decimal timestamp ++ bytesOf "] " ++ message.bytes ++ [13]

/-- A line ends in a newline. -/
theorem fullLine_eq_concat (timestamp : UInt32) (message : CString) :
    fullLine timestamp message = lineBody timestamp message ++ [newline] := by
  rw [fullLine, lineBody, crlf_eq, List.append_assoc _ [13] [newline]]
  rfl

/-- A message without a newline gives a text whose only newline is its end. -/
theorem newline_notMem_lineBody {timestamp : UInt32} {message : CString}
    (h : newline ∉ message.bytes) : newline ∉ lineBody timestamp message := by
  have hdigits : newline ∉ decimal timestamp := notMem_decimal (by decide)
  simp only [lineBody, openBracket_eq, closeBracket_eq, List.mem_append, not_or]
  exact ⟨⟨⟨⟨by decide, hdigits⟩, by decide⟩, h⟩, by decide⟩

end Equinios
end RadonMCU
