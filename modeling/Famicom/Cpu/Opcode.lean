import Famicom.Cpu.Instruction

/-!
The opcode matrix: all 256 opcodes, row by high digit and column by low digit. Columns 1, 5, 9 and D hold
the accumulator instructions, 2, 6, A and E the shifts, and 3, 7, B and F what happens when both decode at
once.
-/

namespace Famicom.Instruction

/-- All opcodes in order. -/
def matrix : Array Instruction := #[
  -- 00
  .brk, .load .ora .indirectX, .jam, .modify .slo .indirectX,
  .skip 1 3, .load .ora .zeroPage, .modify .asl .zeroPage, .modify .slo .zeroPage,
  .implied .php, .load .ora .immediate, .accumulator .asl, .load .anc .immediate,
  .skip 2 4, .load .ora .absolute, .modify .asl .absolute, .modify .slo .absolute,
  -- 10
  .branch .negative false, .load .ora .indirectY, .jam, .modify .slo .indirectY,
  .skip 1 4, .load .ora .zeroPageX, .modify .asl .zeroPageX, .modify .slo .zeroPageX,
  .implied .clc, .load .ora .absoluteY, .skip 0 2, .modify .slo .absoluteY,
  .skip 2 4, .load .ora .absoluteX, .modify .asl .absoluteX, .modify .slo .absoluteX,
  -- 20
  .jsr, .load .and .indirectX, .jam, .modify .rla .indirectX,
  .load .bit .zeroPage, .load .and .zeroPage, .modify .rol .zeroPage, .modify .rla .zeroPage,
  .implied .plp, .load .and .immediate, .accumulator .rol, .load .anc .immediate,
  .load .bit .absolute, .load .and .absolute, .modify .rol .absolute, .modify .rla .absolute,
  -- 30
  .branch .negative true, .load .and .indirectY, .jam, .modify .rla .indirectY,
  .skip 1 4, .load .and .zeroPageX, .modify .rol .zeroPageX, .modify .rla .zeroPageX,
  .implied .sec, .load .and .absoluteY, .skip 0 2, .modify .rla .absoluteY,
  .skip 2 4, .load .and .absoluteX, .modify .rol .absoluteX, .modify .rla .absoluteX,
  -- 40
  .rti, .load .eor .indirectX, .jam, .modify .sre .indirectX,
  .skip 1 3, .load .eor .zeroPage, .modify .lsr .zeroPage, .modify .sre .zeroPage,
  .implied .pha, .load .eor .immediate, .accumulator .lsr, .load .asr .immediate,
  .jmp, .load .eor .absolute, .modify .lsr .absolute, .modify .sre .absolute,
  -- 50
  .branch .overflow false, .load .eor .indirectY, .jam, .modify .sre .indirectY,
  .skip 1 4, .load .eor .zeroPageX, .modify .lsr .zeroPageX, .modify .sre .zeroPageX,
  .implied .cli, .load .eor .absoluteY, .skip 0 2, .modify .sre .absoluteY,
  .skip 2 4, .load .eor .absoluteX, .modify .lsr .absoluteX, .modify .sre .absoluteX,
  -- 60
  .rts, .load .adc .indirectX, .jam, .modify .rra .indirectX,
  .skip 1 3, .load .adc .zeroPage, .modify .ror .zeroPage, .modify .rra .zeroPage,
  .implied .pla, .load .adc .immediate, .accumulator .ror, .load .arr .immediate,
  .jmpIndirect, .load .adc .absolute, .modify .ror .absolute, .modify .rra .absolute,
  -- 70
  .branch .overflow true, .load .adc .indirectY, .jam, .modify .rra .indirectY,
  .skip 1 4, .load .adc .zeroPageX, .modify .ror .zeroPageX, .modify .rra .zeroPageX,
  .implied .sei, .load .adc .absoluteY, .skip 0 2, .modify .rra .absoluteY,
  .skip 2 4, .load .adc .absoluteX, .modify .ror .absoluteX, .modify .rra .absoluteX,
  -- 80
  .skip 1 2, .store .sta .indirectX, .skip 1 2, .store .sax .indirectX,
  .store .sty .zeroPage, .store .sta .zeroPage, .store .stx .zeroPage, .store .sax .zeroPage,
  .implied .dey, .skip 1 2, .implied .txa, .load .ane .immediate,
  .store .sty .absolute, .store .sta .absolute, .store .stx .absolute, .store .sax .absolute,
  -- 90
  .branch .carry false, .store .sta .indirectY, .jam, .store .sha .indirectY,
  .store .sty .zeroPageX, .store .sta .zeroPageX, .store .stx .zeroPageY, .store .sax .zeroPageY,
  .implied .tya, .store .sta .absoluteY, .implied .txs, .store .shs .absoluteY,
  .store .shy .absoluteX, .store .sta .absoluteX, .store .shx .absoluteY, .store .sha .absoluteY,
  -- A0
  .load .ldy .immediate, .load .lda .indirectX, .load .ldx .immediate, .load .lax .indirectX,
  .load .ldy .zeroPage, .load .lda .zeroPage, .load .ldx .zeroPage, .load .lax .zeroPage,
  .implied .tay, .load .lda .immediate, .implied .tax, .load .lxa .immediate,
  .load .ldy .absolute, .load .lda .absolute, .load .ldx .absolute, .load .lax .absolute,
  -- B0
  .branch .carry true, .load .lda .indirectY, .jam, .load .lax .indirectY,
  .load .ldy .zeroPageX, .load .lda .zeroPageX, .load .ldx .zeroPageY, .load .lax .zeroPageY,
  .implied .clv, .load .lda .absoluteY, .implied .tsx, .load .las .absoluteY,
  .load .ldy .absoluteX, .load .lda .absoluteX, .load .ldx .absoluteY, .load .lax .absoluteY,
  -- C0
  .load .cpy .immediate, .load .cmp .indirectX, .skip 1 2, .modify .dcp .indirectX,
  .load .cpy .zeroPage, .load .cmp .zeroPage, .modify .dec .zeroPage, .modify .dcp .zeroPage,
  .implied .iny, .load .cmp .immediate, .implied .dex, .load .sbx .immediate,
  .load .cpy .absolute, .load .cmp .absolute, .modify .dec .absolute, .modify .dcp .absolute,
  -- D0
  .branch .zero false, .load .cmp .indirectY, .jam, .modify .dcp .indirectY,
  .skip 1 4, .load .cmp .zeroPageX, .modify .dec .zeroPageX, .modify .dcp .zeroPageX,
  .implied .cld, .load .cmp .absoluteY, .skip 0 2, .modify .dcp .absoluteY,
  .skip 2 4, .load .cmp .absoluteX, .modify .dec .absoluteX, .modify .dcp .absoluteX,
  -- E0
  .load .cpx .immediate, .load .sbc .indirectX, .skip 1 2, .modify .isb .indirectX,
  .load .cpx .zeroPage, .load .sbc .zeroPage, .modify .inc .zeroPage, .modify .isb .zeroPage,
  .implied .inx, .load .sbc .immediate, .skip 0 2, .load .sbc .immediate,
  .load .cpx .absolute, .load .sbc .absolute, .modify .inc .absolute, .modify .isb .absolute,
  -- F0
  .branch .zero true, .load .sbc .indirectY, .jam, .modify .isb .indirectY,
  .skip 1 4, .load .sbc .zeroPageX, .modify .inc .zeroPageX, .modify .isb .zeroPageX,
  .implied .sed, .load .sbc .absoluteY, .skip 0 2, .modify .isb .absoluteY,
  .skip 2 4, .load .sbc .absoluteX, .modify .inc .absoluteX, .modify .isb .absoluteX]

/-- The instruction of an opcode. -/
def decode (opcode : UInt8) : Instruction := matrix.getD opcode.toNat .jam

end Famicom.Instruction
