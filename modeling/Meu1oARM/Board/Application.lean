import Meu1oARM.Board.Rtc
import Meu1oARM.Foundation.Decimal
import Meu1oARM.Httpd.File
import Meu1oARM.Httpd.Parameters

/-! # The application on the board

The CGI handler drives the relays and sets the clock, the SSI handler prints the
date, the time and a converter value. Both set flags that the main loop turns into
log lines. What a handler passes to the string functions, and the bytes that it
writes and reads in the buffers it allocates, is recorded for the last call.
-/

namespace Meu1oARM

open Machine CString

/-- The outputs that drive the relays. -/
inductive Relay
  | shieldRelay1 | shieldRelay2 | shieldRelay3 | shieldRelay4 | onBoardRelay
  deriving DecidableEq, Repr

/-- The size that `processaCGI` asks `malloc` for. -/
def mallocSize : Nat := 10

/-- What `malloc` returns: the bytes that stand there, and whether it is the null pointer. -/
structure Block where
  bytes : List UInt8
  size_le : mallocSize ≤ bytes.length
  null : Bool

/-- The two buffers of `processaCGI`; `text` is `data` or `relogio`. -/
inductive Buffer
  | text | tmp
  deriving DecidableEq, Repr

/-- A byte of a buffer that is written or read. -/
inductive Access
  | write (buffer : Buffer) (null : Bool) (off : Nat)
  | read (buffer : Buffer) (off : Nat)
  deriving DecidableEq, Repr

/-- A string that `processaCGI` passes to `strcmp` or `strcpy`: `pcValue[index]` or
`pcParam[index]`. -/
structure StringUse where
  value : Bool
  index : Nat
  count : Nat
  args : CgiArgs

def StringUse.entry (u : StringUse) : Option Nat :=
  (if u.value then u.args.paramVals else u.args.params).getD u.index none

/-- The variables of the application and what it drives. `heap` is what successive calls of
`malloc` return, with the bytes that the handler finds there when it comes to read them,
`nullString` the string at address zero, and `stray` the memory behind `MONTH_DAYS`. The
last three fields are bookkeeping. -/
structure Board where
  rtc : UInt32
  date : RtcDatetime
  relays : Relay → Bool
  cardInserted : Bool
  cartao : Bool
  cartaoSsi : Bool
  cartaoCgi : Bool
  cartaoRelay : Bool
  valorAdc11p : Int
  heap : Nat → Block
  mallocs : Nat
  nullString : List UInt8
  stray : Nat → Nat
  uses : List StringUse
  accesses : List Access
  outOfTable : Bool

namespace Board

/-- The string that a pointer of the arrays points to. -/
def string (b : Board) (u : StringUse) : List UInt8 :=
  match u.entry with
  | some off => cstr (u.args.buf.drop off)
  | none => b.nullString

/-- The record of a string that is passed on. -/
def use (b : Board) (u : StringUse) : Board := { b with uses := b.uses ++ [u] }

/-- `RTC_HAL_GetDatetime` into `date` -/
def getDatetime (b : Board) : Board := { b with date := convertSecsToDatetime b.rtc b.date }

/-- `RTC_HAL_SetDatetime` from `date` -/
def setDatetime (b : Board) : Board :=
  { b with
    rtc := convertDatetimeToSecs b.stray b.date
    outOfTable := b.outOfTable || monthDays.length ≤ b.date.month }

/-- `GPIO_DRV_WritePinOutput` -/
def writePinOutput (b : Board) (relay : Relay) (output : Bool) : Board :=
  { b with relays := fun r => if r = relay then output else b.relays r }

/-- `if (cardInserted == true) cartaoRELAY = true;` -/
def flagRelay (b : Board) : Board := { b with cartaoRelay := b.cartaoRelay || b.cardInserted }

/-- `if (cardInserted == true) cartaoCGI = true;` -/
def flagCgi (b : Board) : Board := { b with cartaoCgi := b.cartaoCgi || b.cardInserted }

/-- `if (cardInserted == true) cartaoSSI = true;` -/
def flagSsi (b : Board) : Board := { b with cartaoSsi := b.cartaoSsi || b.cardInserted }

end Board

/-! ## Relays -/

/-- The relays in the order in which they are switched off. -/
def allRelays : List Relay :=
  [.shieldRelay1, .shieldRelay2, .shieldRelay3, .shieldRelay4, .onBoardRelay]

/-- The values of `rele` in the order in which they are compared. -/
def releValues : List (List UInt8 × Relay) :=
  [(chars "1", .shieldRelay1), (chars "2", .shieldRelay2), (chars "3", .shieldRelay3),
   (chars "4", .shieldRelay4), (chars "5", .onBoardRelay)]

namespace Board

/-- The comparisons of `pcValue[i]`, one after the other until one succeeds. -/
def compareRele (value : StringUse) : List (List UInt8 × Relay) → Board → Board
  | [], b => b
  | (text, relay) :: rest, b =>
    let b := b.use value
    if b.string value = text then b.writePinOutput relay true else compareRele value rest b

/-- One round of the loop over the parameters. -/
def releParam (iNumParams : Nat) (args : CgiArgs) (b : Board) (i : Nat) : Board :=
  let param : StringUse := { value := false, index := i, count := iNumParams, args }
  let b := b.use param
  if b.string param = chars "rele" then compareRele { param with value := true } releValues b
  else b

/-- The five writes in front of the loop. -/
def relaysOff (b : Board) : Board :=
  allRelays.foldl (fun (b : Board) relay => b.writePinOutput relay false) b

/-- `iIndex == 0`. There are at most sixteen parameters, so the `uint8_t` counter of the loop
does not wrap around. -/
def releCgi (b : Board) (iNumParams : Nat) (args : CgiArgs) : Board :=
  let b := b.relaysOff
  let b := (List.range iNumParams).foldl (releParam iNumParams args) b
  b.flagRelay

end Board

/-! ## Date and time -/

/-- `atoi`, assigned to a `uint16_t` -/
def atoiField (bytes : List UInt8) : Nat := toU16 (atoi (cstr bytes))

/-- `tmp[0] = text[i]; tmp[1] = text[i + 1];` -/
def copyTwo (text tmp : List UInt8) (i : Nat) : List UInt8 :=
  (tmp.set 0 (text.getD i 0)).set 1 (text.getD (i + 1) 0)

/-- The number of bytes that `atoi` looks at: white space, a sign, digits, and the byte that
ends the number. -/
def atoiSpan (s : List UInt8) : Nat :=
  let t := s.dropWhile isSpace
  let sign := if t.head? = some 45 ∨ t.head? = some 43 then 1 else 0
  (s.takeWhile isSpace).length + sign + ((t.drop sign).takeWhile isDigit).length + 1

def atoiAccesses (buffer : Buffer) (bytes : List UInt8) : List Access :=
  (List.range (atoiSpan bytes)).map (.read buffer)

/-- `strcpy` of a string of this length, with its terminator. -/
def strcpyAccesses (null : Bool) (length : Nat) : List Access :=
  (List.range (length + 1)).map (.write .text null)

def copyTwoAccesses (null : Bool) (i : Nat) : List Access :=
  [.read .text i, .write .tmp null 0, .read .text (i + 1), .write .tmp null 1]

namespace Board

/-- `pcValue[0]` -/
def firstValue (iNumParams : Nat) (args : CgiArgs) : StringUse :=
  { value := true, index := 0, count := iNumParams, args }

/-- `iIndex == 1`: a date such as `2021-05-18`. -/
def dataCgi (b : Board) (iNumParams : Nat) (args : CgiArgs) : Board :=
  let data := b.heap b.mallocs
  let tmp := b.heap (b.mallocs + 1)
  let value := firstValue iNumParams args
  let text := strcpy data.bytes (b.string value)
  let tmp1 := copyTwo text tmp.bytes 5
  let tmp2 := copyTwo text tmp1 8
  { b with
    mallocs := b.mallocs + 2
    date :=
      { b.date with year := atoiField text, month := atoiField tmp1, day := atoiField tmp2 }
    uses := b.uses ++ [value]
    accesses := b.accesses ++ strcpyAccesses data.null (b.string value).length ++
      atoiAccesses .text text ++ copyTwoAccesses tmp.null 5 ++ atoiAccesses .tmp tmp1 ++
      copyTwoAccesses tmp.null 8 ++ atoiAccesses .tmp tmp2 }

/-- `iIndex == 2`: a time such as `14%3A42`. -/
def horaCgi (b : Board) (iNumParams : Nat) (args : CgiArgs) : Board :=
  let relogio := b.heap b.mallocs
  let tmp := b.heap (b.mallocs + 1)
  let value := firstValue iNumParams args
  let text := strcpy relogio.bytes (b.string value)
  let tmp1 := copyTwo text tmp.bytes 5
  { b with
    mallocs := b.mallocs + 2
    date := { b.date with hour := atoiField text, minute := atoiField tmp1 }
    uses := b.uses ++ [value]
    accesses := b.accesses ++ strcpyAccesses relogio.null (b.string value).length ++
      atoiAccesses .text text ++ copyTwoAccesses tmp.null 5 ++ atoiAccesses .tmp tmp1 }

end Board

/-! ## The handlers -/

/-- The records start anew with every call. -/
def Board.startCall (b : Board) : Board :=
  { b with uses := [], accesses := [], outOfTable := false }

/-- `processaCGI` -/
def processaCgi (b : Board) (iIndex iNumParams : Nat) (args : CgiArgs) : Board × List UInt8 :=
  let b := b.startCall.getDatetime
  let b :=
    if iIndex = 0 then b.releCgi iNumParams args
    else if iIndex = 1 then b.dataCgi iNumParams args
    else if iIndex = 2 then b.horaCgi iNumParams args
    else b
  (b.setDatetime.flagCgi, chars "/index.shtml")

/-- `tabelaCGI` after `cgi_init` -/
def tabelaCgi : List (Cgi Board) :=
  [{ name := chars "/rele.cgi", handler := processaCgi },
   { name := chars "/data.cgi", handler := processaCgi },
   { name := chars "/hora.cgi", handler := processaCgi }]

/-- `etiquetasSSI` -/
def etiquetasSsi : List (List UInt8) := [chars "tag1", chars "tag2", chars "tag3"]

/-- `atualizadorSSI`: the text left in the insert buffer, whose length is returned. -/
def atualizadorSsi (b : Board) (iIndex : Nat) : List UInt8 × Board :=
  let b := b.getDatetime
  if iIndex = 0 then
    (printfInt 2 (short b.date.day) ++ 47 :: printfInt 2 (short b.date.month) ++
      47 :: printfInt 4 (short b.date.year) ++ [32], b)
  else if iIndex = 1 then
    (printfInt 2 (short b.date.hour) ++ 58 :: printfInt 2 (short b.date.minute) ++ [32], b)
  else if iIndex = 2 then (printfInt 3 b.valorAdc11p, b)
  else ([], b.setDatetime.flagSsi)

/-- What the server serves on the board; the stored files and the answers of the SSI
handler as the connection sees them are parameters. -/
def boardSite (root : List FsdataFile) (ssiHandler : Nat → Nat → Insert) : Site Board where
  root := root
  cgis := tabelaCgi
  tags := etiquetasSsi
  ssiHandler := ssiHandler

end Meu1oARM
