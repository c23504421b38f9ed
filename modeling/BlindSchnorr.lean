import BlindSchnorr.Blind.Exchange
import BlindSchnorr.Blind.Pool
import BlindSchnorr.Curve.Standard
import BlindSchnorr.Description
import BlindSchnorr.Json.Config
import BlindSchnorr.KeyRecovery
import BlindSchnorr.Proofs.Arith.Power
import BlindSchnorr.Proofs.Arith.Symbol
import BlindSchnorr.Proofs.Curve.Laws
import BlindSchnorr.Proofs.Curve.NoncePoint
import BlindSchnorr.Proofs.Encoding.PointRoundTrip
import BlindSchnorr.Proofs.Hash.NonceStream
import BlindSchnorr.Proofs.Signing.Verification
import BlindSchnorr.Proofs.Signing.Completeness
import BlindSchnorr.Proofs.Curve.AffineGroup
import BlindSchnorr.Proofs.Curve.Cusp
import BlindSchnorr.Proofs.Arith.ScalarDraw
import BlindSchnorr.Proofs.Blind.Answer
import BlindSchnorr.Proofs.Blind.Blinding
import BlindSchnorr.Proofs.Blind.Completeness
import BlindSchnorr.Proofs.Blind.SingleUse
import BlindSchnorr.Proofs.Blind.Blindness
import BlindSchnorr.Proofs.Blind.SelfCheck
import BlindSchnorr.Proofs.Signing.Verdict
import BlindSchnorr.Proofs.Signing.SharedNonce
import BlindSchnorr.Proofs.Encoding.CanonicalCode
import BlindSchnorr.Proofs.Blind.ProbeWindow
import BlindSchnorr.Proofs.Blind.Refinement
import BlindSchnorr.Proofs.Blind.PointForms
import BlindSchnorr.Proofs.Curve.Secp256k1
import BlindSchnorr.Proofs.Arith.UniformDraw
import BlindSchnorr.Proofs.Encoding.Refusal
import BlindSchnorr.Proofs.Signing.NonceSign
import BlindSchnorr.Proofs.Blind.RequestOutcome
import BlindSchnorr.Proofs.Blind.ReusedNonce
import BlindSchnorr.Proofs.Hash.FirstScalar
import BlindSchnorr.Proofs.Signing.PublicKey
import BlindSchnorr.Proofs.Checked.Operations
import BlindSchnorr.Proofs.Hash.SeedSeparation
import BlindSchnorr.Proofs.Encoding.ResidueTests
import BlindSchnorr.Proofs.Encoding.WordNumeral
