import AfbBinder.Handshake.Accept
import AfbBinder.Lib.Crlf

/-!
# The request of the client

`send_request` of the websocket client: it picks a key of a table, in which the accept value
to expect follows the key, and asks for the protocols joined with commas.
-/

namespace AfbBinder.Handshake

open Lib WsClient

/-- `compkeys`, by pairs. -/
def compkeys : List (Bytes × Bytes) := [
  (ascii "lYKr2sn9+ILcLpkqdrE2VQ==", ascii "G5J7ncQnmS/MubIYcqKWM+E6k8I="),
  (ascii "gjN6eOU/6Yy7dBTJ+EaQSw==", ascii "P5QzN7mRt4DeRWxKdG7s4/NCEwk="),
  (ascii "ziLin6OQ0/a1+cGaI9Mupg==", ascii "yvpxcFJAGam6huL77vz34CdShyU="),
  (ascii "KMfd2bHKah0U5mk2Kg/LIg==", ascii "lyYxfDP5YunhkBF+nAWb/w6K4yg="),
  (ascii "fQ/ISF1mNCPRMyAj3ucqNg==", ascii "91YY1EUelb4eMU24Z8WHhJ9cHmc="),
  (ascii "RHlfiVVE1lM1AJnErI8dFg==", ascii "UdZQc0JaihQJV5ETCZ84Av88pxQ="),
  (ascii "NVy3L2ujXN7v3KEJwK92ww==", ascii "+dE7iITxhExjBtf06VYNWChHqx8="),
  (ascii "cCNAgttlgELfbDDIfhujww==", ascii "W2JiswqbTAXx5u84EtjbtqAW2Bg="),
  (ascii "K+oQvEDWJP+WXzRS5BJDFw==", ascii "szgW10a9AuD+HtfS4ylaqWfzWAs="),
  (ascii "nmg43S4DpVaxye+oQv9KTw==", ascii "8XK74jB9xFfTzzl0wTqW04k3tPE="),
  (ascii "LIqZ23sEppbF4YJR9LQ4/w==", ascii "f8lJBQEbR8QmmvPHZpA0smlIeeA="),
  (ascii "WY1vvvY2j/3V9DAGW3ZZcA==", ascii "lROlE4vL4cjU1Vnk6rISc9gVKN0="),
  (ascii "Ia+dgHnA9QaBrbxuqh4wgQ==", ascii "GiGjxFdSaF0EGTl2cjvFsVmJnfM="),
  (ascii "MfpIVG082jFTV7SxTNNijQ==", ascii "f5I2h53hBsT5ES3EHhnxAJ2nqsw="),
  (ascii "kFumnAw5d/WctG0yAUHPiQ==", ascii "aQQmOjoABl7mrbliTPS1bOkndOs="),
  (ascii "MHiEc+Qc8w/SJ3zMHEM8pA==", ascii "FVCxLBmoil3gY0jSX3aNJ6kR/t4=")]

/-- `while (r > 15) r = (r & 15) + (r >> 4);` -/
def foldRand (r : Nat) : Nat :=
  if 15 < r then foldRand ((r &&& 15) + r >>> 4) else r
termination_by r
decreasing_by
  have hlow : r &&& 15 = r % 16 := Nat.and_two_pow_sub_one_eq_mod r 4
  omega

theorem foldRand_le (r : Nat) : foldRand r ≤ 15 := by
  induction r using foldRand.induct with
  | case1 r hbig ih =>
      rw [foldRand, if_pos hbig]
      exact ih
  | case2 r hsmall =>
      rw [foldRand, if_neg hsmall]
      omega

/-- `getkeypair`, from the result of `rand`; `none` is a read after the table. -/
def getkeypair (rand : Nat) : Option (Bytes × Bytes) := compkeys[foldRand rand &&& 15]?

theorem getkeypair_mem (rand : Nat) : ∃ pair ∈ compkeys, getkeypair rand = some pair := by
  have hle := foldRand_le rand
  have hlow : foldRand rand &&& 15 = foldRand rand % 16 :=
    Nat.and_two_pow_sub_one_eq_mod (foldRand rand) 4
  have hlt : foldRand rand &&& 15 < compkeys.length := by
    have hlength : compkeys.length = 16 := rfl
    omega
  exact ⟨_, List.getElem_mem hlt, List.getElem?_eq_getElem hlt⟩

/-- `strjoin` -/
def strjoin (separ : Bytes) : List Bytes → Bytes
  | [] => []
  | s :: strings => s ++ strings.flatMap (separ ++ ·)

/-- The headers that `make_request` writes. -/
def requestHeaders (host key protocols : Bytes) : List (Bytes × Bytes) := [
  (ascii "Host", host),
  (ascii "Upgrade", ascii "websocket"),
  (ascii "Connection", ascii "Upgrade"),
  (ascii "Sec-WebSocket-Version", ascii "13"),
  (ascii "Sec-WebSocket-Key", key),
  (ascii "Sec-WebSocket-Protocol", protocols),
  (ascii "Content-Length", ascii "0")]

def headerLine (header : Bytes × Bytes) : Bytes := header.1 ++ ascii ": " ++ header.2

/-- `make_request` -/
def makeRequest (path host key protocols : Bytes) : Bytes :=
  crlfLines ((ascii "GET " ++ path ++ ascii " HTTP/1.1") ::
    (requestHeaders host key protocols).map headerLine) ++ [13, 10]

/-- `send_request`: what it writes and the accept value that it returns. -/
def sendRequest (rand : Nat) (protocols : List Bytes) (path host : Bytes) :
    Option (Bytes × Bytes) :=
  (getkeypair rand).map fun pair =>
    (makeRequest path host pair.1 (strjoin (ascii ", ") protocols), pair.2)

theorem compkeys_accept :
    ∀ pair ∈ compkeys, makeAcceptValue Sha1.hash pair.1 = pair.2 := by
  -- key by key, for the memory of the checks
  simp only [compkeys, List.forall_mem_cons]
  and_intros
  all_goals decide +kernel

end AfbBinder.Handshake
