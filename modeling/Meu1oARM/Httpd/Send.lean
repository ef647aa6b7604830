import Meu1oARM.Httpd.Close
import Meu1oARM.Httpd.Ssi

/-! # `http_send` -/

namespace Meu1oARM

variable {σ : Type}

/-- `http_check_eof` -/
def httpCheckEof (o : Oracle) (c : Ctx σ) : Nat × Ctx σ :=
  let c := c.readHs
  match c.hs.handle with
  | none => (0, httpEof o c)
  | some handle =>
    if fsBytesLeft handle ≤ 0 then (0, httpEof o c)
    else (1, { c with pcb := c.pcb.check false .eofNotReached })

/-- `http_send` from the choice of the sending routine on. -/
def httpSendData (site : Site σ) (o : Oracle) (c : Ctx σ) : Nat × Ctx σ :=
  let hs := c.readHs.hs
  let data := hs.handle.elim [] FsFile.data
  let (dataToSend, pcb, hs) :=
    match hs.ssi with
    | some ssi => httpSendDataSsi site o data c.readHs.pcb hs ssi
    | none => httpSendDataNonssi o data c.readHs.pcb hs
  let c := { c with pcb }.setHs hs
  if hs.left = 0 ∧ hs.handle.elim 0 fsBytesLeft ≤ 0 then (0, httpEof o c) else (dataToSend, c)

/-- `http_send`; the file system never defers a read. -/
def httpSend (site : Site σ) (o : Oracle) (c : Ctx σ) : Nat × Ctx σ :=
  match c.cell with
  | .null => (0, c)
  | _ =>
    if c.readHs.hs.left = 0 then
      let (more, c) := httpCheckEof o c.readHs
      if more = 0 then (0, c) else httpSendData site o c
    else httpSendData site o c.readHs

end Meu1oARM
