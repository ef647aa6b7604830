import Meu1oARM.Httpd.Plain

/-! # Sending a file with SSI

`http_send_data_ssi` scans the file for tags while it sends, and puts the insert
of every tag behind it. The scan and the sending stop and resume at any byte.
-/

namespace Meu1oARM

open Machine CString

/-- `g_pcTagLeadIn` -/
def tagLeadIn : List UInt8 := chars "<!--#"

/-- `g_pcTagLeadOut` -/
def tagLeadOut : List UInt8 := chars "-->"

/-- The white space that the scanner skips around a tag name. -/
def isTagSpace (b : UInt8) : Bool := b == 32 || b == 9 || b == 10 || b == 13

def unknownTag1 : List UInt8 := chars "<b>***UNKNOWN TAG "

def unknownTag2 : List UInt8 := chars "***</b>"

/-- The text sent for a tag that no handler is registered for. -/
def unknownTagText (name : List UInt8) : List UInt8 :=
  unknownTag1 ++ name.take (maxTagInsertLen - (unknownTag1.length + unknownTag2.length)) ++
    unknownTag2

/-- `get_tag_insert`: the insert buffer and its length after looking up the tag name. -/
def getTagInsert (site : TagSite) (ssi : HttpSsiState) : HttpSsiState :=
  match site.tags.findIdx? (· == cstr ssi.tagName) with
  | some loop =>
    let insert := site.ssiHandler ssi.calls loop
    { ssi with calls := ssi.calls + 1, tagInsert := insert.mem, tagInsertLen := insert.len.toNat }
  | none =>
    let text := unknownTagText (cstr ssi.tagName)
    { ssi with
      calls := ssi.calls + 1
      tagInsert := ofList (text ++ [0]) (shift ssi.tagInsert (text.length + 1))
      tagInsertLen := u16 (cstr (text ++ [0])).length }

/-- The variables of `http_send_data_ssi`: those of the function and those of the
connection that it changes. -/
structure SsiSend where
  pcb : Pcb
  file : Nat
  left : Nat
  ssi : HttpSsiState
  err : Err
  len : Nat
  dataToSend : Nat

/-- The insert that is left to be sent, as memory. -/
def HttpSsiState.insertMem (ssi : HttpSsiState) : Mem := shift ssi.tagInsert ssi.tagIndex

/-- Move on to the next character in the buffer. -/
def HttpSsiState.advance (ssi : HttpSsiState) : HttpSsiState :=
  { ssi with parseLeft := sub32 ssi.parseLeft 1, parsed := ssi.parsed + 1 }

namespace SsiSend

/-- `http_write` of `len` file bytes, and what follows when it succeeds. The four places
that send file bytes differ in the length they ask for. -/
def writeFile (o : Oracle) (data : List UInt8) (s : SsiSend) (len : Nat) : SsiSend :=
  let (err, len, pcb) := httpWrite o s.pcb .file s.file (fileMem data s.file) len
  if err = .ok then
    { s with pcb, err, len, dataToSend := 1, file := s.file + len, left := sub32 s.left len }
  else { s with pcb, err, len }

/-- Send what has been parsed but not sent, before and after the loop. -/
def sendParsed (o : Oracle) (data : List UInt8) (s : SsiSend) : SsiSend :=
  let gap := s.ssi.parsed - s.file
  let s := { s with pcb := s.pcb.check (s.pcb.sndBuf.toNat < gap || gap ≤ 65535) .gapFits }
  s.writeFile o data (clampLen s.pcb gap)

/-- The tag is complete: fetch its insert, and send the file up to the end of the tag. -/
def tagComplete (site : TagSite) (o : Oracle) (data : List UInt8) (s : SsiSend) : SsiSend :=
  let ssi := getTagInsert site s.ssi
  let pcb := s.pcb.log
    (.tagInsert ssi.parsed (cstr ssi.tagName) (bytes ssi.tagInsert ssi.tagInsertLen))
  let ssi := { ssi with tagIndex := 0, tagState := .sending, tagEnd := ssi.parsed }
  let s := { s with ssi, pcb }
  if s.file < ssi.tagEnd then
    s.writeFile o data (if ssi.tagEnd - s.file < s.len then u16 (ssi.tagEnd - s.file) else s.len)
  else s

/-- `case TAG_NONE` -/
def caseNone (s : SsiSend) (b : UInt8) : SsiSend :=
  if b = tagLeadIn.getD 0 0 then
    { s with ssi := { s.ssi with tagState := .leadin, tagIndex := 1 }.advance }
  else { s with ssi := s.ssi.advance }

/-- `case TAG_LEADIN` -/
def caseLeadin (s : SsiSend) (b : UInt8) : SsiSend :=
  if s.ssi.tagIndex = tagLeadIn.length then
    { s with ssi := { s.ssi with tagIndex := 0, tagState := .found } }
  else if b = tagLeadIn.getD s.ssi.tagIndex 0 then
    { s with ssi := { s.ssi with tagIndex := s.ssi.tagIndex + 1 }.advance }
  else { s with ssi := { s.ssi with tagState := .none }.advance }

/-- `case TAG_FOUND` -/
def caseFound (s : SsiSend) (b : UInt8) : SsiSend :=
  let ssi := s.ssi
  if ssi.tagIndex = 0 ∧ isTagSpace b then { s with ssi := ssi.advance }
  else if b = tagLeadOut.getD 0 0 ∨ isTagSpace b then
    if ssi.tagIndex = 0 then { s with ssi := { ssi with tagState := .none }.advance }
    else
      { s with
        pcb := s.pcb.check (ssi.tagIndex ≤ 255) .tagIndexFits
        ssi := { ssi with
          tagState := .leadout
          tagNameLen := u8 ssi.tagIndex
          tagName := ssi.tagName.set ssi.tagIndex 0
          tagIndex := if b = tagLeadOut.getD 0 0 then 1 else 0 }.advance }
  else if ssi.tagIndex < maxTagNameLen then
    { s with
      ssi := { ssi with
        tagName := ssi.tagName.set ssi.tagIndex b, tagIndex := ssi.tagIndex + 1 }.advance }
  else { s with ssi := { ssi with tagState := .none }.advance }

/-- `case TAG_LEADOUT` -/
def caseLeadout (site : TagSite) (o : Oracle) (data : List UInt8) (s : SsiSend) (b : UInt8) : SsiSend :=
  let ssi := s.ssi
  if ssi.tagIndex = 0 ∧ isTagSpace b then { s with ssi := ssi.advance }
  else if b = tagLeadOut.getD ssi.tagIndex 0 then
    if ssi.tagIndex = tagLeadOut.length - 1 then
      { s with ssi := ssi.advance }.tagComplete site o data
    else { s with ssi := { ssi with tagIndex := ssi.tagIndex + 1 }.advance }
  else { s with ssi := { ssi with tagState := .none }.advance }

/-- `case TAG_SENDING` -/
def caseSending (o : Oracle) (data : List UInt8) (s : SsiSend) : SsiSend :=
  let ssi := s.ssi
  if s.file < ssi.tagEnd then
    s.writeFile o data (if ssi.tagEnd - s.file < s.len then u16 (ssi.tagEnd - s.file) else s.len)
  else if ssi.tagIndex < ssi.tagInsertLen then
    let len :=
      if ssi.tagInsertLen - ssi.tagIndex < s.len then u16 (ssi.tagInsertLen - ssi.tagIndex)
      else s.len
    let (err, len, pcb) := httpWrite o s.pcb .insert ssi.tagIndex ssi.insertMem len
    if err = .ok then
      { s with
        pcb, err, len, dataToSend := 1
        ssi := { ssi with tagIndex := u16 (ssi.tagIndex + len) } }
    else { s with pcb, err, len }
  else { s with ssi := { ssi with tagIndex := 0, tagState := .none } }

/-- One iteration of the loop of `http_send_data_ssi`. -/
def iter (site : TagSite) (o : Oracle) (data : List UInt8) (s : SsiSend) : SsiSend :=
  let b := data.getD s.ssi.parsed 0
  match s.ssi.tagState with
  | .none => s.caseNone b
  | .leadin => s.caseLeadin b
  | .found => s.caseFound b
  | .leadout => s.caseLeadout site o data b
  | .sending => s.caseSending o data

/-- The loop of `http_send_data_ssi`; the second component says that it was left by
`return data_to_send`. -/
def loop (site : TagSite) (o : Oracle) (data : List UInt8) : Nat → SsiSend → SsiSend × Bool
  | 0, s => (s, true)
  | fuel + 1, s =>
    if s.ssi.parseLeft = 0 ∨ s.err ≠ .ok then (s, false)
    else if s.len = 0 then (s, true)
    else loop site o data fuel (s.iter site o data)

/-- More rounds than the loop can make: between two characters it sends at most the rest
of the file and one insert, at least a byte a round. -/
def loopFuel (data : List UInt8) (s : SsiSend) : Nat :=
  (s.ssi.parseLeft + 1) * (data.length + 65540)

/-- The scan, from the `parse_left` test on, and the block that sends what it has passed. -/
def scanAndSend (site : TagSite) (o : Oracle) (data : List UInt8) (s : SsiSend) : SsiSend :=
  let (s, returned) := s.loop site o data (s.loopFuel data)
  if returned then s
  else if s.ssi.tagState ≠ .sending ∧ s.file < s.ssi.parsed then s.sendParsed o data
  else s

/-- The body of `http_send_data_ssi`. -/
def send (site : TagSite) (o : Oracle) (data : List UInt8) (s : SsiSend) : SsiSend :=
  if s.file < s.ssi.parsed then
    let s := s.sendParsed o data
    if s.pcb.sndBuf = 0 then s else s.scanAndSend site o data
  else s.scanAndSend site o data

end SsiSend

/-- `http_send_data_ssi` -/
def httpSendDataSsi (site : TagSite) (o : Oracle) (data : List UInt8) (pcb : Pcb)
    (hs : HttpState) (ssi : HttpSsiState) : Nat × Pcb × HttpState :=
  let pcb := pcb.touch
  let start : SsiSend :=
    { pcb, ssi, file := hs.file.getD 0, left := hs.left, err := .ok, len := pcb.sndBuf.toNat,
      dataToSend := 0 }
  let s := start.send site o data
  (s.dataToSend, s.pcb, { hs with file := some s.file, left := s.left, ssi := some s.ssi })

end Meu1oARM
