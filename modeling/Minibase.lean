import Minibase.Lib.Memory
import Minibase.Lib.Strings
import Minibase.Lib.CInt
import Minibase.Lib.Peek
import Minibase.Lib.Tlv
import Minibase.Nlusctl.Pack
import Minibase.Nlusctl.Attr
import Minibase.Nlusctl.RoundTrip
import Minibase.Nlusctl.Safety
import Minibase.Nlusctl.Overflow
import Minibase.Lib.Triple
import Minibase.Lzma.Decoder
import Minibase.Lzma.Logic
import Minibase.Lzma.Symbol
import Minibase.Lzma.Invariant
import Minibase.Lzma.Restart
import Minibase.Lib.Bytes
import Minibase.Crypto.Mem
import Minibase.Crypto.Sha
import Minibase.Crypto.Aes128
import Minibase.Crypto.Cipher
import Minibase.Crypto.KeyWrap
import Minibase.Vtmux.Mux
import Minibase.Vtmux.Devices
import Minibase.Vtmux.Moves
import Minibase.Vtmux.Owned
import Minibase.Vtmux.Switching
import Minibase.Vtmux.Sessions
import Minibase.Vtmux.Requests
import Minibase.Vtmux.Slots
import Minibase.Vtmux.Failures
import Minibase.Wsupp.Eapolkey
import Minibase.Wsupp.Eapol
import Minibase.Wsupp.Reaction
import Minibase.Wsupp.Handshake
import Minibase.Wsupp.Frames
import Minibase.Wsupp.Device
import Minibase.Wsupp.Apsel
import Minibase.Wsupp.System
import Minibase.Wsupp.Steady
import Minibase.Wsupp.Links
import Minibase.Wsupp.Quiet
import Minibase.Wsupp.Progress
import Minibase.Wsupp.Alive
import Minibase.Wsupp.Scans
import Minibase.Wsupp.Storage
import Minibase.Format.Fmt
import Minibase.Format.Clip
import Minibase.Netlink.Recv
import Minibase.Netlink.Stream
import Minibase.Netlink.Attr
import Minibase.Netlink.Bounds
import Minibase.Netlink.Pack
import Minibase.Netlink.Request
import Minibase.Lib.Records
import Minibase.Lib.Ring
import Minibase.Wsupp.Psk
import Minibase.Wsupp.PskMap
import Minibase.Lib.Outcome
import Minibase.Lib.Fs
import Minibase.Lib.Split
import Minibase.Mpkg.Index
import Minibase.Mpkg.Deploy
import Minibase.Mpkg.Conflict
import Minibase.Mpkg.Exact
import Minibase.Mpkg.Policy
import Minibase.Mpkg.Tree
import Minibase.Mpkg.Marks
import Minibase.Mpkg.Rules
import Minibase.Mpkg.Obeyed
import Minibase.Mpkg.Filedb
import Minibase.Mpkg.Needed
import Minibase.Mpkg.Unpacked
import Minibase.Mpkg.Removed
import Minibase.Mpkg.Undo
import Minibase.Lib.Runs
import Minibase.Dhconf.Packet
import Minibase.Dhconf.Client
import Minibase.Dhconf.Lease
import Minibase.Svchub.Hub
import Minibase.Svchub.System
import Minibase.Svchub.Moves
import Minibase.Svchub.Events
import Minibase.Svchub.Table
import Minibase.Svchub.Stopping
import Minibase.Svchub.Quelled
import Minibase.Msh.Heap
import Minibase.Msh.Entries
import Minibase.Msh.Changes
import Minibase.Msh.Commands
import Minibase.Msh.Vars
import Minibase.Msh.Parser
import Minibase.Msh.Grammar
import Minibase.Msh.Tokens
import Minibase.Ifmon.Links
import Minibase.Lib.Epoll
import Minibase.Hubs.Table
import Minibase.Apphub.Hub
import Minibase.Ptyhub.Hub
import Minibase.Hubs.Exits
import Minibase.Hubs.Attribution
import Minibase.Apphub.Polled
import Minibase.Ptyhub.Polled
import Minibase.Hubs.Events
import Minibase.Hubs.Ids
import Minibase.Ptyhub.Attach
import Minibase.Lib.BitPoly
import Minibase.Dcrypt.Xts
import Minibase.Dcrypt.Deitool
import Minibase.Format.Digits
import Minibase.Dcrypt.Keyfile
import Minibase.Dcrypt.Dektool
import Minibase.Dcrypt.Keyring
import Minibase.Dcrypt.Passblk
import Minibase.Util.Qsort
import Minibase.Init.Rdinit
import Minibase.Syslog.Log
import Minibase.Syslog.Header
import Minibase.Syslog.Klog
import Minibase.Syslog.Follow
import Minibase.Ctool.Checked
import Minibase.Ctool.Deploy
import Minibase.Ctool.Library
import Minibase.Ctool.Removed
import Minibase.Ctool.Undo
import Minibase.Ctool.Use
import Minibase.Ctool.Unpacked
import Minibase.Ifmon.Config
import Minibase.Ifmon.Monitor
import Minibase.Ifmon.Scripts
import Minibase.Ifmon.Reports
import Minibase.Timed.Daemon
import Minibase.Timed.Sound
import Minibase.Timed.Answers
import Minibase.Timed.Correction
import Minibase.Timed.Selection
import Minibase.Lib.Gregorian
import Minibase.Time.Calendar
import Minibase.Time.Arguments
import Minibase.Format.Ip
import Minibase.Util.Natcmp
import Minibase.Util.Inside
import Minibase.Wsupp.Ies
import Minibase.Wsupp.Acceptance
import Minibase.Lzma.Reference
import Minibase.Util.Writeall
import Minibase.Util.Output
import Minibase.Lib.Digest
import Minibase.Lib.Fips
import Minibase.Crypto.Digest
import Minibase.Crypto.Pbkdf2
import Minibase.Mpkg.Transfer
import Minibase.Cpio.Names
import Minibase.Cpio.Pack
import Minibase.Cpio.Lines
import Minibase.Cpio.Clean
import Minibase.Cpio.Header
import Minibase.Cpio.Create
import Minibase.Cpio.Extract
import Minibase.Cpio.Reading
import Minibase.Cpio.Archive
import Minibase.Cpio.Tree
import Minibase.Cpio.Truncated
import Minibase.Cpio.Listing
import Minibase.Cpio.RoundTrip
import Minibase.Kmod.Stdin
import Minibase.Kmod.Unpack
import Minibase.Kmod.Modinfo
import Minibase.Lib.Glob
import Minibase.Kmod.Alias
import Minibase.Lib.Walk
import Minibase.Kmod.Index
import Minibase.Kmod.Resolve
import Minibase.Kmod.Elf
import Minibase.Kmod.Trust
import Minibase.Dhconf.Options
import Minibase.Lib.OnesSum
import Minibase.Dhconf.Checksum
import Minibase.Svchub.Commands
import Minibase.Svchub.Output
