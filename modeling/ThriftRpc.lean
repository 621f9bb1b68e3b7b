import ThriftRpc.Main
import ThriftRpc.Proofs.Codec.Evolution
import ThriftRpc.Proofs.Codec.Halfway
import ThriftRpc.Proofs.Codec.Integers
import ThriftRpc.Proofs.Codec.Limits
import ThriftRpc.Proofs.Codec.Normal
import ThriftRpc.Proofs.Codec.Texts
import ThriftRpc.Proofs.Compile.Aliases
import ThriftRpc.Proofs.Compile.Directory
import ThriftRpc.Proofs.Compile.Enums
import ThriftRpc.Proofs.Compile.Places
import ThriftRpc.Proofs.Compile.Reordered
import ThriftRpc.Proofs.Compile.Results
import ThriftRpc.Proofs.Compile.Search
import ThriftRpc.Proofs.Idl.Quotation
import ThriftRpc.Proofs.Idl.ReadBack
import ThriftRpc.Proofs.Idl.Visiting
import ThriftRpc.Proofs.Packrat.Arithmetic
import ThriftRpc.Proofs.Pipe
import ThriftRpc.Proofs.Rpc.Ending
import ThriftRpc.Proofs.Rpc.Sending
import ThriftRpc.Proofs.Wire.Header
